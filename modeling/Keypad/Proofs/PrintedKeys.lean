import Keypad.Proofs.KeySequence

/-!
# Keys are read back from what they print

A key prints one character, which is not blank and labels no other key.  Only the clear key has a
second character, its capital.  So a text is read as some keys exactly if these keys print what is
left of it without its blanks and capitals.
-/

namespace Keypad.Key

/-- What keys print, one behind the other. -/
def printAll (keys : List Key) : String := .ofList (keys.map char)

/-- The character that is printed for one that is read. -/
def printed (c : Char) : Char := if c = 'C' then 'c' else c

/-- What a text holds besides blanks, as it is printed. -/
def squeezed (text : String) : String :=
  .ofList ((text.toList.filter (!Text.isBlank ·)).map printed)

/-! ## Characters -/

theorem labels_char (key : Key) : Labels key.char key :=
  ofChar?_eq_some_iff.mp (ofChar?_char key)

/-- A character labels the key that prints it. -/
theorem labels_iff {c : Char} {key : Key} : Labels c key ↔ printed c = key.char := by
  by_cases hcapital : c = 'C'
  · rw [printed, if_pos hcapital, ← ofChar?_eq_some_iff, hcapital]
    constructor
    · intro hkey
      rw [← Option.some.inj hkey]
      rfl
    · intro hchar
      have hkey := ofChar?_char key
      rw [← hchar] at hkey
      exact hkey
  · rw [printed, if_neg hcapital]
    constructor
    · intro hlabels
      exact (eq_char_of_ofChar? (ofChar?_eq_some_iff.mpr hlabels)).resolve_right hcapital
    · rintro rfl
      exact labels_char key

theorem printed_char (key : Key) : printed key.char = key.char :=
  labels_iff.mp (labels_char key)

theorem rightUnique_labels : Relator.RightUnique Labels := by
  intro c key key' hkey hkey'
  rw [← ofChar?_eq_some_iff] at hkey hkey'
  exact Option.some.inj (hkey.symm.trans hkey')

/-! ## Texts -/

theorem forall₂_labels_iff {cs : List Char} {keys : List Key} :
    List.Forall₂ Labels cs keys ↔ keys.map char = cs.map printed := by
  have hlabels : Labels = fun c key => printed c = key.char := by
    funext c key
    exact propext labels_iff
  rw [eq_comm, ← List.forall₂_eq_eq_eq, List.forall₂_map_left_iff, List.forall₂_map_right_iff,
    hlabels]

theorem not_isUnknown_of_forall₂ {cs : List Char} {keys : List Key}
    (hlabels : List.Forall₂ Labels (cs.filter (!Text.isBlank ·)) keys) :
    ∀ c ∈ cs, ¬IsUnknown c := by
  rintro c hc ⟨hblank, hkey⟩
  have hmem : c ∈ cs.filter (!Text.isBlank ·) := by simp [hc, hblank]
  have hprinted := List.mem_map_of_mem (f := printed) hmem
  rw [← forall₂_labels_iff.mp hlabels] at hprinted
  obtain ⟨key, -, hchar⟩ := List.mem_map.mp hprinted
  rw [ofChar?_eq_some_iff.mpr (labels_iff.mpr hchar.symm)] at hkey
  cases hkey

/-- A text is read as the keys that its characters besides blanks label, one for each. -/
theorem parse_eq_ok_iff_forall₂ {text : String} {keys : List Key} :
    parse text = .ok keys ↔
      List.Forall₂ Labels (text.toList.filter (!Text.isBlank ·)) keys := by
  constructor
  · intro hparse
    obtain ⟨htext, rfl⟩ := parse_eq_ok_iff.mp hparse
    exact forall₂_labels_amongChars htext
  · intro hlabels
    have htext := not_isUnknown_of_forall₂ hlabels
    rw [parse_of_not_unknown htext,
      rightUnique_labels.forall₂ (forall₂_labels_amongChars htext) hlabels]

/-- A text is read as some keys exactly if they print what it holds besides blanks. -/
theorem parse_eq_ok_iff_printAll {text : String} {keys : List Key} :
    parse text = .ok keys ↔ printAll keys = squeezed text := by
  rw [parse_eq_ok_iff_forall₂, forall₂_labels_iff, printAll, squeezed, String.ofList_inj]

/-! ## Printed keys -/

/-- Keys as they are printed, with blanks in front of the first one and behind each. -/
def spaced (before : List Char) (keys : List (Key × List Char)) : String :=
  .ofList (before ++ keys.flatMap fun item => item.1.char :: item.2)

theorem filter_blanks {cs : List Char} (hblank : ∀ c ∈ cs, Text.isBlank c = true) :
    cs.filter (!Text.isBlank ·) = [] := by
  rw [List.filter_eq_nil_iff]
  intro c hc
  rw [hblank c hc]
  exact Bool.false_ne_true

theorem filter_spaced {keys : List (Key × List Char)}
    (hblank : ∀ item ∈ keys, ∀ c ∈ item.2, Text.isBlank c = true) :
    (keys.flatMap fun item => item.1.char :: item.2).filter (!Text.isBlank ·) =
      (keys.map Prod.fst).map char := by
  induction keys with
  | nil => rfl
  | cons item rest ih =>
      obtain ⟨hitem, hrest⟩ := List.forall_mem_cons.mp hblank
      rw [List.flatMap_cons, List.cons_append,
        List.filter_cons_of_pos (by rw [item.1.not_isBlank_char]; rfl), List.filter_append,
        filter_blanks hitem, List.nil_append, ih hrest, List.map_cons, List.map_cons]

theorem squeezed_spaced {before : List Char} {keys : List (Key × List Char)}
    (hbefore : ∀ c ∈ before, Text.isBlank c = true)
    (hblank : ∀ item ∈ keys, ∀ c ∈ item.2, Text.isBlank c = true) :
    squeezed (spaced before keys) = printAll (keys.map Prod.fst) := by
  have hprinted : printed ∘ char = char := funext printed_char
  rw [squeezed, spaced, String.toList_ofList, List.filter_append, filter_blanks hbefore,
    List.nil_append, filter_spaced hblank, List.map_map, hprinted, printAll]

theorem parse_spaced {before : List Char} {keys : List (Key × List Char)}
    (hbefore : ∀ c ∈ before, Text.isBlank c = true)
    (hblank : ∀ item ∈ keys, ∀ c ∈ item.2, Text.isBlank c = true) :
    parse (spaced before keys) = .ok (keys.map Prod.fst) := by
  rw [parse_eq_ok_iff_printAll, squeezed_spaced hbefore hblank]

theorem printAll_eq_spaced (keys : List Key) :
    printAll keys = spaced [] (keys.map fun key => (key, [])) := by
  rw [printAll, spaced, List.nil_append, List.flatMap_map, ← List.map_eq_flatMap]

theorem parse_printAll (keys : List Key) : parse (printAll keys) = .ok keys := by
  have hblank : ∀ item ∈ keys.map fun key => (key, ([] : List Char)),
      ∀ c ∈ item.2, Text.isBlank c = true := by
    simp
  rw [printAll_eq_spaced, parse_spaced (List.forall_mem_nil _) hblank, List.map_map]
  exact congrArg _ (List.map_id keys)

/-- Whatever keys are printed, with or without blanks anywhere around them, the text is read as these
keys.  And the keys that any text is read as print the text without its blanks and with each capital
of the clear key replaced, which is read as the same keys again. -/
theorem keys_print_and_parse_back :
    (∀ keys, parse (printAll keys) = .ok keys) ∧
      (∀ (before : List Char) (keys : List (Key × List Char)),
        (∀ c ∈ before, Text.isBlank c = true) →
          (∀ item ∈ keys, ∀ c ∈ item.2, Text.isBlank c = true) →
            parse (spaced before keys) = .ok (keys.map Prod.fst)) ∧
      ∀ text keys, parse text = .ok keys →
        printAll keys = squeezed text ∧ parse (printAll keys) = .ok keys := by
  refine ⟨parse_printAll, ?_, ?_⟩
  · intro before keys hbefore hblank
    exact parse_spaced hbefore hblank
  · intro text keys hparse
    exact ⟨parse_eq_ok_iff_printAll.mp hparse, parse_printAll keys⟩

/-- The line feed and the wide blank are dropped, and the capital is printed in lower case. -/
example : (parse "1 +\n.\u3000C=").map printAll = .ok "1+.c=" := by decide

end Keypad.Key
