import RegionStore.Preferences.Line

/-!
Lines of a settings file, written and read. A word in quotes is read back whatever its bytes are, except
that a newline ends the line it stands in; so reading never gives a word with a newline in it, and what
has none comes back from a file.
-/

set_option autoImplicit false

namespace RegionStore.Preferences

def entryText (key value : List UInt8) : List UInt8 := quoted key ++ [space] ++ quoted value

theorem quotedWord_quote (rest known : List UInt8) :
    quotedWord (quote :: rest) known = (known.reverse, some rest) := by
  cases rest <;> simp [quotedWord]

theorem quotedWord_escaped {byte : UInt8} (special : NeedsBackslash byte) (rest known : List UInt8) :
    quotedWord (backslash :: byte :: rest) known = quotedWord rest (byte :: known) := by
  have notQuote : backslash ≠ quote := by decide
  rw [quotedWord.eq_def]
  simp only [if_neg notQuote, special, and_self, if_true]

theorem quotedWord_plain {byte : UInt8} (plain : ¬ NeedsBackslash byte) (rest known : List UInt8) :
    quotedWord (byte :: rest) known = quotedWord rest (byte :: known) := by
  obtain ⟨notQuote, notBackslash⟩ := not_or.1 plain
  rw [quotedWord.eq_def]
  simp only [if_neg notQuote]
  cases rest with
  | nil => simp [quotedWord]
  | cons next more => simp only [notBackslash, false_and, if_false]

theorem quotedWord_escape (word rest known : List UInt8) :
    quotedWord (escape word ++ quote :: rest) known = (known.reverse ++ word, some rest) := by
  induction word generalizing known with
  | nil => rw [escape, List.flatMap_nil, List.nil_append, quotedWord_quote, List.append_nil]
  | cons byte word ih =>
    have later := ih (byte :: known)
    rw [List.reverse_cons, List.append_assoc, List.singleton_append] at later
    unfold escape at later ⊢
    rw [List.flatMap_cons, List.append_assoc]
    split
    · next special => exact (quotedWord_escaped special _ known).trans later
    · next plain => exact (quotedWord_plain plain _ known).trans later

theorem firstWord_quoted (word rest : List UInt8) : firstWord (quoted word ++ rest) = (word, some rest) := by
  have notBlank : ¬ IsBlank quote := by decide
  have shape : quoted word ++ rest = quote :: (escape word ++ quote :: rest) := by
    simp only [quoted, List.cons_append, List.append_assoc, List.nil_append]
  rw [firstWord, shape, List.dropWhile_cons, if_neg (by simpa using notBlank)]
  simp only
  rw [if_pos trivial, quotedWord_escape]
  rfl

theorem firstWord_space (line : List UInt8) : firstWord (space :: line) = firstWord line := by
  have blank : IsBlank space := by decide
  rw [firstWord, List.dropWhile_cons, if_pos (by simpa using blank)]
  rfl

theorem words_entryText (key value : List UInt8) : words (entryText key value) = (key, value) := by
  have first : firstWord (entryText key value) = (key, some (space :: quoted value)) := by
    rw [entryText, List.append_assoc, firstWord_quoted]
    rfl
  have second : firstWord (space :: quoted value) = (value, some []) := by
    rw [firstWord_space, ← List.append_nil (quoted value), firstWord_quoted]
  rw [words, first]
  simp only [second]

theorem quotedWord_subset (line known : List UInt8) :
    (quotedWord line known).1 ⊆ known ++ line ∧
      ∀ rest, (quotedWord line known).2 = some rest → rest ⊆ line := by
  fun_induction quotedWord line known with
  | case1 known => simp
  | case2 known rest => simp
  | case3 known byte notQuote next more escaped ih => grind
  | case4 known byte notQuote next more plain ih => grind
  | case5 known byte notQuote => grind

theorem firstWord_subset (line : List UInt8) :
    (firstWord line).1 ⊆ line ∧ ∀ rest, (firstWord line).2 = some rest → rest ⊆ line := by
  have kept := (List.dropWhile_sublist (fun byte => decide (IsBlank byte)) (l := line)).subset
  unfold firstWord
  split
  · refine ⟨List.nil_subset line, ?_⟩
    rintro _ ⟨⟩
  · next byte rest start =>
    rw [start] at kept
    split
    · obtain ⟨word, others⟩ := quotedWord_subset rest []
      rw [List.nil_append] at word
      have inside : rest ⊆ line := List.Subset.trans (List.subset_cons_self byte rest) kept
      exact ⟨List.Subset.trans word inside, fun other found =>
        List.Subset.trans (others other found) inside⟩
    · refine ⟨List.Subset.trans (List.takeWhile_sublist _).subset kept, fun other found => ?_⟩
      rw [← Option.some.inj found]
      exact List.Subset.trans (List.dropWhile_sublist _).subset kept

theorem words_subset (line : List UInt8) : (words line).1 ⊆ line ∧ (words line).2 ⊆ line := by
  obtain ⟨first, others⟩ := firstWord_subset line
  unfold words
  split
  · next found =>
    rw [found] at first
    exact ⟨first, List.nil_subset line⟩
  · next key rest found =>
    rw [found] at first others
    exact ⟨first, List.Subset.trans (firstWord_subset rest).1 (others rest rfl)⟩

theorem not_mem_of_mem_lines {bytes line : List UInt8} (isLine : line ∈ lines bytes) : newline ∉ line := by
  fun_induction lines bytes with
  | case1 => cases isLine
  | case2 byte rest ih =>
    rcases List.mem_cons.1 isLine with rfl | later
    · intro member
      simpa using List.all_eq_true.1 List.all_takeWhile newline member
    · exact ih later

theorem lines_append {line : List UInt8} (whole : newline ∉ line) (rest : List UInt8) :
    lines (line ++ newline :: rest) = line :: lines rest := by
  have inside : ∀ byte ∈ line, decide (byte ≠ newline) = true := by
    intro byte member
    rw [decide_eq_true_eq]
    rintro rfl
    exact whole member
  have front : (line ++ newline :: rest).takeWhile (· ≠ newline) = line := by
    rw [List.takeWhile_append_of_pos inside, List.takeWhile_cons, if_neg (by simp), List.append_nil]
  have back : (line ++ newline :: rest).dropWhile (· ≠ newline) = newline :: rest := by
    rw [List.dropWhile_append_of_pos inside, List.dropWhile_cons, if_neg (by simp)]
  cases text : line ++ newline :: rest with
  | nil => exact absurd text (List.append_ne_nil_of_right_ne_nil _ (List.cons_ne_nil _ _))
  | cons byte others =>
    rw [text] at front back
    rw [lines, front, back, List.drop_one, List.tail_cons]

/-- Bytes of a word stay its bytes, and at most backslashes and quotes are put in. -/
theorem newline_mem_quoted_iff {word : List UInt8} : newline ∈ quoted word ↔ newline ∈ word := by
  have notQuote : newline ≠ quote := by decide
  have notBackslash : newline ≠ backslash := by decide
  have plain : ¬ NeedsBackslash newline := by decide
  simp only [quoted, escape, List.mem_append, List.mem_cons, List.mem_flatMap, notQuote, false_or,
    List.not_mem_nil, or_false, or_self]
  constructor
  · rintro ⟨byte, member, found⟩
    split at found
    · next special =>
      simp only [List.mem_cons, notBackslash, List.not_mem_nil, or_false, false_or] at found
      exact found ▸ member
    · rw [List.mem_singleton] at found
      exact found ▸ member
  · intro member
    refine ⟨newline, member, ?_⟩
    rw [if_neg plain]
    exact List.mem_singleton_self newline

theorem newline_mem_entryText_iff {key value : List UInt8} :
    newline ∈ entryText key value ↔ newline ∈ key ∨ newline ∈ value := by
  have notSpace : newline ≠ space := by decide
  simp only [entryText, List.mem_append, List.mem_singleton, notSpace, or_false, newline_mem_quoted_iff]

theorem lines_flatMap_entryLine {entries : List (Bytes × Bytes)}
    (whole : ∀ entry ∈ entries, newline ∉ entryText entry.1.list entry.2.list) :
    lines (entries.flatMap fun entry => entryLine entry.1.list entry.2.list) =
      entries.map fun entry => entryText entry.1.list entry.2.list := by
  induction entries with
  | nil => rw [List.flatMap_nil, List.map_nil, lines]
  | cons entry rest ih =>
    have line (key value : List UInt8) : entryLine key value = entryText key value ++ [newline] := rfl
    rw [List.flatMap_cons, List.map_cons, line, List.append_assoc, List.singleton_append,
      lines_append (whole entry List.mem_cons_self), ih fun other member =>
        whole other (List.mem_cons_of_mem entry member)]

end RegionStore.Preferences
