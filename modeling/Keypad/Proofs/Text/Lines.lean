import Keypad.Text

/-!
# The lines of a text and of its bytes

Splitting into lines puts each element that is no line end into the line it stands in, in order.
A line feed and a carriage return are single bytes in UTF-8 that no other character's bytes hold,
so the lines of a text's bytes are the bytes of the text's lines.
-/

namespace Keypad.Text

/-! ## Splitting -/

/-- Puts elements in front of the first of some lines. -/
def prependToLines {α : Type} (elements : List α) : List (List α) → List (List α)
  | [] => [elements]
  | line :: others => (elements ++ line) :: others

theorem prependToLines_append {α : Type} (elements more : List α) (lines : List (List α)) :
    prependToLines elements (prependToLines more lines) =
      prependToLines (elements ++ more) lines := by
  cases lines with
  | nil => rfl
  | cons line others => simp [prependToLines]

theorem flatten_prependToLines {α : Type} (elements : List α) (lines : List (List α)) :
    (prependToLines elements lines).flatten = elements ++ lines.flatten := by
  cases lines with
  | nil => rfl
  | cons line others => exact List.append_assoc elements line others.flatten

theorem take_prependToLines {α : Type} (count : Nat) (elements : List α)
    (lines : List (List α)) :
    (prependToLines elements lines).take (count + 1) =
      prependToLines elements (lines.take (count + 1)) := by
  cases lines with
  | nil => simp [prependToLines]
  | cons line others => simp [prependToLines]

theorem map_prependToLines {α β : Type} (f : α → List β) (elements : List α)
    (lines : List (List α)) :
    (prependToLines elements lines).map (List.flatMap f) =
      prependToLines (elements.flatMap f) (lines.map (List.flatMap f)) := by
  cases lines with
  | nil => rfl
  | cons line others => simp [prependToLines]

section Splitting

variable {α : Type} [DecidableEq α] {feed carriage : α}

theorem splitLines_feed (rest : List α) :
    splitLines feed carriage (feed :: rest) = [] :: splitLines feed carriage rest := by
  rw [splitLines, if_pos rfl]

/-- A carriage return in front of a line feed stands in no line. -/
theorem splitLines_carriage {c : α} {rest : List α} (hfeed : c ≠ feed)
    (hend : c = carriage ∧ rest.head? = some feed) :
    splitLines feed carriage (c :: rest) = splitLines feed carriage rest := by
  rw [splitLines, if_neg hfeed, if_pos hend]

/-- What ends no line stands in the first line of what it is followed by. -/
theorem splitLines_cons {c : α} {rest : List α} (hfeed : c ≠ feed)
    (hend : ¬(c = carriage ∧ rest.head? = some feed)) :
    splitLines feed carriage (c :: rest) =
      prependToLines [c] (splitLines feed carriage rest) := by
  rw [splitLines, if_neg hfeed, if_neg hend]
  cases splitLines feed carriage rest <;> rfl

/-- Elements that are no line ends stand together in the first line. -/
theorem splitLines_append {elements : List α} (hne : elements ≠ [])
    (hfeed : feed ∉ elements) (hcarriage : carriage ∉ elements) (rest : List α) :
    splitLines feed carriage (elements ++ rest) =
      prependToLines elements (splitLines feed carriage rest) := by
  induction elements with
  | nil => exact absurd rfl hne
  | cons c more ih =>
      rw [List.mem_cons, not_or] at hfeed hcarriage
      rw [List.cons_append,
        splitLines_cons (Ne.symm hfeed.1) fun hend => hcarriage.1 hend.1.symm]
      by_cases hlast : more = []
      · rw [hlast, List.nil_append]
      · rw [ih hlast hfeed.2 hcarriage.2, prependToLines_append, List.singleton_append]

/-- A line and its end are split off the start of a text. -/
theorem splitLines_line {line : List α} (hne : line ≠ []) (hfeed : feed ∉ line)
    (hcarriage : carriage ∉ line) (rest : List α) :
    splitLines feed carriage (line ++ feed :: rest) = line :: splitLines feed carriage rest := by
  rw [splitLines_append hne hfeed hcarriage, splitLines_feed, prependToLines, List.append_nil]

/-- Splitting into lines drops line ends only, and keeps the order. -/
theorem flatten_splitLines_sublist (elements : List α) :
    (splitLines feed carriage elements).flatten.Sublist elements := by
  induction elements with
  | nil => exact List.Sublist.slnil
  | cons c rest ih =>
      by_cases hfeed : c = feed
      · rw [hfeed, splitLines_feed, List.flatten_cons, List.nil_append]
        exact ih.cons feed
      by_cases hend : c = carriage ∧ rest.head? = some feed
      · rw [splitLines_carriage hfeed hend]
        exact ih.cons c
      · rw [splitLines_cons hfeed hend, flatten_prependToLines, List.singleton_append]
        exact ih.cons_cons c

theorem mem_of_mem_splitLines {elements line : List α} {c : α}
    (hline : line ∈ splitLines feed carriage elements) (hc : c ∈ line) : c ∈ elements :=
  (flatten_splitLines_sublist elements).mem (List.mem_flatten_of_mem hline hc)

/-- What the elements of all lines stand for is what the elements of the text stand for, if the
line ends stand for nothing. -/
theorem flatMap_filterMap_splitLines {β : Type} {f : α → Option β} (hfeed : f feed = none)
    (hcarriage : f carriage = none) (elements : List α) :
    (splitLines feed carriage elements).flatMap (List.filterMap f) = elements.filterMap f := by
  rw [List.flatMap_def, ← List.filterMap_flatten]
  induction elements with
  | nil => rfl
  | cons c rest ih =>
      by_cases hc : c = feed
      · rw [hc, splitLines_feed, List.flatten_cons, List.nil_append, ih,
          List.filterMap_cons_none hfeed]
      by_cases hend : c = carriage ∧ rest.head? = some feed
      · rw [splitLines_carriage hc hend, ih, hend.1, List.filterMap_cons_none hcarriage]
      · rw [splitLines_cons hc hend, flatten_prependToLines, List.filterMap_append, ih,
          ← List.filterMap_append, List.singleton_append]

/-! ## The first lines -/

/-- The start of a text up to the end of a number of its lines, with their line ends. -/
def takeLines (feed : α) : Nat → List α → List α
  | 0, _ => []
  | _ + 1, [] => []
  | count + 1, c :: rest =>
    if c = feed then c :: takeLines feed count rest else c :: takeLines feed (count + 1) rest

theorem head?_takeLines (count : Nat) (elements : List α) :
    (takeLines feed (count + 1) elements).head? = elements.head? := by
  cases elements with
  | nil => rfl
  | cons c rest =>
      rw [takeLines]
      split <;> rfl

theorem splitLines_takeLines (count : Nat) (elements : List α) :
    splitLines feed carriage (takeLines feed count elements) =
      (splitLines feed carriage elements).take count := by
  induction elements generalizing count with
  | nil => cases count <;> rfl
  | cons c rest ih =>
      cases count with
      | zero => rfl
      | succ count =>
          by_cases hfeed : c = feed
          · rw [takeLines, if_pos hfeed, hfeed, splitLines_feed, splitLines_feed,
              List.take_succ_cons, ih]
          rw [takeLines, if_neg hfeed]
          have hhead := @head?_takeLines _ _ feed count rest
          by_cases hend : c = carriage ∧ rest.head? = some feed
          · rw [splitLines_carriage hfeed hend, splitLines_carriage hfeed (by rwa [hhead]), ih]
          · rw [splitLines_cons hfeed hend, splitLines_cons hfeed (by rwa [hhead]), ih,
              take_prependToLines]

theorem takeLines_sublist (count : Nat) (elements : List α) :
    (takeLines feed count elements).Sublist elements := by
  induction elements generalizing count with
  | nil => cases count <;> exact List.Sublist.slnil
  | cons c rest ih =>
      cases count with
      | zero => exact List.nil_sublist _
      | succ count =>
          rw [takeLines]
          split
          · exact (ih count).cons_cons c
          · exact (ih (count + 1)).cons_cons c

end Splitting

/-! ## Bytes -/

theorem encodeUtf8_eq (text : String) :
    encodeUtf8 text = text.toList.flatMap String.utf8EncodeChar := by
  rw [encodeUtf8, ← String.utf8Encode_toList, List.utf8Encode, List.data_toByteArray]

/-- A text is read back from its bytes. -/
theorem decodeUtf8?_encodeUtf8 (text : String) : decodeUtf8? (encodeUtf8 text) = some text := by
  have hbytes : (encodeUtf8 text).toByteArray = text.toByteArray := by
    rw [encodeUtf8_eq, ← List.utf8Encode, String.utf8Encode_toList]
  rw [decodeUtf8?, hbytes, String.fromUTF8?, dif_pos text.isValidUTF8]
  rfl

/-- No byte of a character is an ASCII one, unless the character itself is. -/
theorem not_mem_utf8EncodeChar {byte : UInt8} (hascii : byte.toNat < 128) {c : Char}
    (hne : c.toNat ≠ byte.toNat) : byte ∉ String.utf8EncodeChar c := by
  intro hmem
  have hbyte : ∀ n, byte = UInt8.ofNat n → n % 256 < 128 ∧ n % 256 = byte.toNat := by
    rintro n rfl
    have htoNat : (UInt8.ofNat n).toNat = n % 256 := UInt8.toNat_ofNat'
    omega
  have hc : c.toNat = c.val.toNat := rfl
  unfold String.utf8EncodeChar at hmem
  dsimp only at hmem
  split at hmem
  · obtain ⟨-, h⟩ := hbyte _ (List.mem_singleton.mp hmem)
    omega
  · split at hmem
    · simp only [List.mem_cons, List.not_mem_nil, or_false] at hmem
      rcases hmem with h | h <;> have := hbyte _ h <;> omega
    · split at hmem
      · simp only [List.mem_cons, List.not_mem_nil, or_false] at hmem
        rcases hmem with h | h | h <;> have := hbyte _ h <;> omega
      · simp only [List.mem_cons, List.not_mem_nil, or_false] at hmem
        rcases hmem with h | h | h | h <;> have := hbyte _ h <;> omega

theorem feed_not_mem_utf8EncodeChar {c : Char} (hc : c ≠ '\n') :
    10 ∉ String.utf8EncodeChar c :=
  not_mem_utf8EncodeChar (by decide) fun heq => hc (Char.toNat_inj.mp heq)

theorem carriage_not_mem_utf8EncodeChar {c : Char} (hc : c ≠ '\r') :
    13 ∉ String.utf8EncodeChar c :=
  not_mem_utf8EncodeChar (by decide) fun heq => hc (Char.toNat_inj.mp heq)

/-- The bytes of a text start with a line feed just if the text does. -/
theorem head?_flatMap_utf8EncodeChar (cs : List Char) :
    (cs.flatMap String.utf8EncodeChar).head? = some 10 ↔ cs.head? = some '\n' := by
  cases cs with
  | nil => simp
  | cons c rest =>
      obtain ⟨byte, more, hbytes⟩ :=
        List.exists_cons_of_ne_nil (@String.utf8EncodeChar_ne_nil c)
      rw [List.flatMap_cons, hbytes, List.cons_append, List.head?_cons, List.head?_cons,
        Option.some_inj, Option.some_inj]
      constructor
      · rintro rfl
        refine Decidable.byContradiction fun hc => feed_not_mem_utf8EncodeChar hc ?_
        rw [hbytes]
        exact List.mem_cons_self
      · rintro rfl
        exact (List.cons.inj (hbytes.symm.trans (by decide : String.utf8EncodeChar '\n' = [10]))).1

theorem byteLines_flatMap (cs : List Char) :
    byteLines (cs.flatMap String.utf8EncodeChar) =
      (lines cs).map (List.flatMap String.utf8EncodeChar) := by
  induction cs with
  | nil => rfl
  | cons c rest ih =>
      rw [byteLines, lines] at *
      by_cases hfeed : c = '\n'
      · have hbyte : String.utf8EncodeChar '\n' = [10] := by decide
        rw [List.flatMap_cons, hfeed, hbyte, List.singleton_append, splitLines_feed,
          splitLines_feed, ih]
        rfl
      by_cases hcarriage : c = '\r'
      · have hbyte : String.utf8EncodeChar '\r' = [13] := by decide
        have hhead := head?_flatMap_utf8EncodeChar rest
        rw [List.flatMap_cons, hcarriage, hbyte, List.singleton_append]
        by_cases hend : rest.head? = some '\n'
        · rw [splitLines_carriage (by decide) ⟨rfl, hend⟩,
            splitLines_carriage (by decide) ⟨rfl, hhead.mpr hend⟩, ih]
        · rw [splitLines_cons (by decide) fun h => hend h.2,
            splitLines_cons (by decide) fun h => hend (hhead.mp h.2), ih, map_prependToLines]
          rfl
      · rw [List.flatMap_cons, splitLines_append String.utf8EncodeChar_ne_nil
          (feed_not_mem_utf8EncodeChar hfeed) (carriage_not_mem_utf8EncodeChar hcarriage),
          splitLines_cons hfeed fun h => hcarriage h.1, ih, map_prependToLines,
          List.flatMap_singleton]

/-- The lines of a text's bytes are the bytes of its lines. -/
theorem byteLines_encodeUtf8 (text : String) :
    byteLines (encodeUtf8 text) =
      (lines text.toList).map fun line => encodeUtf8 (.ofList line) := by
  rw [encodeUtf8_eq, byteLines_flatMap]
  apply List.map_congr_left
  intro line hline
  rw [encodeUtf8_eq, String.toList_ofList]

end Keypad.Text
