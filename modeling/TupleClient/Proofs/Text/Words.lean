import Mathlib.Data.List.TakeWhile
import TupleClient.Text.Blank

/-!
Blanks: what is cut off at the ends of a text, and the words between them.
-/
namespace TupleClient.Text

def AllBlank (cs : List Char) : Prop := ∀ c ∈ cs, isBlank c = true

def NoBlank (cs : List Char) : Prop := ∀ c ∈ cs, isBlank c = false

instance : DecidablePred AllBlank := fun cs =>
  decidable_of_iff (cs.all isBlank = true) List.all_eq_true

instance : DecidablePred NoBlank := fun cs =>
  decidable_of_iff (cs.all (!isBlank ·) = true) (by simp [NoBlank])

structure Trimmed (cs : List Char) : Prop where
  head : ∀ c ∈ cs.head?, isBlank c = false
  last : ∀ c ∈ cs.getLast?, isBlank c = false

variable {cs blanks front back word : List Char}

theorem NoBlank.trimmed (h : NoBlank cs) : Trimmed cs :=
  ⟨fun c hc => h c (List.mem_of_head? hc), fun c hc => h c (List.mem_of_getLast? hc)⟩

theorem trimStart_append (h : AllBlank blanks) (cs : List Char) :
    trimStart (blanks ++ cs) = trimStart cs := List.dropWhile_append_of_pos h

theorem trimStart_of_head (h : ∀ c ∈ cs.head?, isBlank c = false) : trimStart cs = cs := by
  cases cs with
  | nil => rfl
  | cons c cs => exact List.dropWhile_cons_of_neg (by simp [h c rfl])

theorem trimEnd_append (h : AllBlank blanks) (cs : List Char) :
    trimEnd (cs ++ blanks) = trimEnd cs := by
  have hreverse : AllBlank blanks.reverse := fun c hc => h c (List.mem_reverse.1 hc)
  rw [trimEnd, List.reverse_append]
  exact congrArg List.reverse (trimStart_append hreverse cs.reverse)

theorem trimEnd_of_last (h : ∀ c ∈ cs.getLast?, isBlank c = false) : trimEnd cs = cs := by
  have hreverse : trimStart cs.reverse = cs.reverse := trimStart_of_head (by simpa using h)
  rw [trimEnd, ← trimStart, hreverse, List.reverse_reverse]

theorem trim_around (h : Trimmed cs) (hfront : AllBlank front) (hback : AllBlank back) :
    trim (front ++ cs ++ back) = cs := by
  rw [trim, List.append_assoc, trimStart_append hfront]
  cases cs with
  | nil =>
    rw [List.nil_append, ← List.append_nil back, trimStart_append hback]
    rfl
  | cons c cs =>
    rw [trimStart_of_head (by simpa using h.head c rfl), trimEnd_append hback,
      trimEnd_of_last h.last]

theorem exists_trimEnd (cs : List Char) :
    ∃ blanks, AllBlank blanks ∧ cs = trimEnd cs ++ blanks := by
  refine ⟨(cs.reverse.takeWhile isBlank).reverse, fun c hc => ?_, ?_⟩
  · exact List.mem_takeWhile_imp (List.mem_reverse.1 hc)
  · rw [trimEnd, ← List.reverse_append, List.takeWhile_append_dropWhile, List.reverse_reverse]

theorem last_trimEnd (cs : List Char) : ∀ c ∈ (trimEnd cs).getLast?, isBlank c = false := by
  intro c hc
  rw [trimEnd, List.getLast?_reverse] at hc
  have hhead := List.head?_dropWhile_not isBlank cs.reverse
  rw [hc] at hhead
  exact hhead

theorem trimEnd_append_of_last (h : ∃ c ∈ cs.getLast?, isBlank c = false) (rest : List Char) :
    trimEnd (cs ++ rest) = cs ++ trimEnd rest := by
  obtain ⟨blanks, hblanks, hrest⟩ := exists_trimEnd rest
  have hcut : trimEnd (cs ++ rest) = trimEnd (cs ++ trimEnd rest) := calc
    trimEnd (cs ++ rest) = trimEnd (cs ++ trimEnd rest ++ blanks) := by
      rw [List.append_assoc, ← hrest]
    _ = trimEnd (cs ++ trimEnd rest) := trimEnd_append hblanks _
  rw [hcut]
  refine trimEnd_of_last fun c hc => ?_
  obtain ⟨d, hd, hblank⟩ := h
  rw [List.getLast?_append, Option.mem_def.1 hd] at hc
  cases hlast : (trimEnd rest).getLast? with
  | none =>
    rw [hlast] at hc
    cases hc
    exact hblank
  | some e =>
    rw [hlast] at hc
    cases hc
    exact last_trimEnd rest c hlast

/-! Words -/

theorem splitWord_of_noBlank (h : NoBlank word) : splitWord word = (word, []) := by
  have hword : ∀ c ∈ word, (!isBlank c) = true := fun c hc => by simp [h c hc]
  rw [splitWord, List.takeWhile_eq_self_iff.2 hword, List.dropWhile_eq_nil_iff.2 hword]
  rfl

theorem splitWord_append {c : Char} (h : NoBlank word) (hc : isBlank c = true) (rest : List Char) :
    splitWord (word ++ c :: rest) = (word, rest) := by
  have hword : ∀ c ∈ word, (!isBlank c) = true := fun c hc => by simp [h c hc]
  rw [splitWord, List.takeWhile_append_of_pos hword, List.dropWhile_append_of_pos hword,
    List.takeWhile_cons_of_neg (by simp [hc]), List.dropWhile_cons_of_neg (by simp [hc])]
  simp

theorem exists_word (cs : List Char) :
    ∃ word, NoBlank word ∧ (cs = word ∨ ∃ c rest, isBlank c = true ∧ cs = word ++ c :: rest) := by
  refine ⟨cs.takeWhile (!isBlank ·), fun c hc => by simpa using List.mem_takeWhile_imp hc, ?_⟩
  cases hbehind : cs.dropWhile (!isBlank ·) with
  | nil =>
    have hsum := List.takeWhile_append_dropWhile (p := (!isBlank ·)) (l := cs)
    rw [hbehind, List.append_nil] at hsum
    exact .inl hsum.symm
  | cons c rest =>
    have hc := List.head_dropWhile_not (!isBlank ·) (l := cs) (by simp [hbehind])
    refine .inr ⟨c, rest, by simpa [hbehind] using hc, ?_⟩
    rw [← hbehind, List.takeWhile_append_dropWhile]

def words (cs : List Char) : List (List Char) := (cs.splitOnP isBlank).filter (!·.isEmpty)

theorem words_trimStart (cs : List Char) : words (trimStart cs) = words cs := by
  induction cs with
  | nil => rfl
  | cons c cs ih =>
    by_cases hc : isBlank c = true
    · rw [trimStart, List.dropWhile_cons_of_pos hc, ← trimStart, ih, words, words,
        List.splitOnP_cons_eq_if_modifyHead, if_pos hc]
      rfl
    · rw [trimStart, List.dropWhile_cons_of_neg hc]

theorem isBlank_of_trimStart {c : Char} {rest : List Char} (h : trimStart cs = c :: rest) :
    isBlank c = false := by
  have hne : cs.dropWhile isBlank ≠ [] := by
    rw [← trimStart, h]
    exact List.cons_ne_nil _ _
  have hhead := List.head_dropWhile_not isBlank hne
  simp only [← trimStart.eq_1, h] at hhead
  exact hhead

theorem splitWord_ne_nil {c : Char} (hc : isBlank c = false) (cs : List Char) :
    (splitWord (c :: cs)).1 ≠ [] := by
  simp [splitWord, hc]

theorem words_eq (cs : List Char) :
    words cs = match trimStart cs with
      | [] => []
      | c :: rest => (splitWord (c :: rest)).1 :: words (splitWord (c :: rest)).2 := by
  rw [← words_trimStart]
  cases h : trimStart cs with
  | nil => rfl
  | cons c rest =>
    have hc := isBlank_of_trimStart h
    obtain ⟨word, hword, hsplit⟩ := exists_word (c :: rest)
    obtain hall | ⟨blank, more, hblank, hsplit⟩ := hsplit
    · simp only [hall, splitWord_of_noBlank hword]
      rw [words, List.splitOnP_eq_singleton hword, ← hall]
      rfl
    · have hne : word ≠ [] := by
        rintro rfl
        cases hsplit
        rw [hc] at hblank
        cases hblank
      simp only [hsplit, splitWord_append hword hblank]
      rw [words, List.splitOnP_append_cons_of_forall_mem hword _ hblank]
      exact List.filter_cons_of_pos (by simpa using hne)

theorem words_of_allBlank (h : AllBlank blanks) : words blanks = [] := by
  have htrim : trimStart blanks = [] := List.dropWhile_eq_nil_iff.2 h
  rw [words_eq, htrim]

theorem words_append (h : AllBlank blanks) (cs : List Char) : words (cs ++ blanks) = words cs := by
  cases blanks with
  | nil => rw [List.append_nil]
  | cons c blanks =>
    obtain ⟨hc, hblanks⟩ := List.forall_mem_cons.1 h
    have hnone : (blanks.splitOnP isBlank).filter (!·.isEmpty) = [] := words_of_allBlank hblanks
    rw [words, List.splitOnP_append_cons _ _ hc, List.filter_append, hnone, List.append_nil]
    rfl

/-- What begins a text and has no blank is left when blanks are cut off at the end. -/
theorem prefix_of_prefix_append (hcs : NoBlank cs) (hblanks : AllBlank blanks)
    (h : cs <+: word ++ blanks) : cs <+: word := by
  obtain hle | ⟨rest, rfl⟩ := List.prefix_or_prefix_of_prefix h (List.prefix_append word blanks)
  · exact hle
  · cases rest with
    | nil => simp
    | cons c rest =>
      have hmem : c ∈ blanks := ((List.prefix_append_right_inj word).1 h).subset List.mem_cons_self
      have hnot := hcs c (List.mem_append_right word List.mem_cons_self)
      rw [hblanks c hmem] at hnot
      cases hnot

end TupleClient.Text
