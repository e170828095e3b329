import TupleClient.Proofs.Shell.Spelling
import TupleClient.Shell.Command

/-!
How a line falls into values: blanks are skipped, a quote opens a text, all else is words.
-/
namespace TupleClient.Shell

open Text

inductive Quoted : (typed : List Char) → (text : List Char) → Prop
  | nil : Quoted [] []
  | plain {c : Char} {typed text : List Char} (hquote : c ≠ '"') (hescape : c ≠ '\\')
    (h : Quoted typed text) : Quoted (c :: typed) (c :: text)
  | escaped (c : Char) {typed text : List Char} (h : Quoted typed text) :
    Quoted ('\\' :: c :: typed) ((if c = 'n' then '\n' else c) :: text)

/-- No quote closes what stands here; a backslash at the end has nothing to escape. -/
def Unclosed (behind : List Char) : Prop :=
  ∃ typed text, Quoted typed text ∧ (behind = typed ∨ behind = typed ++ ['\\'])

/-- Whole literals and blanks, and the values they stand for. A word ends at a blank; a text ends
at its quote, whatever follows. -/
inductive Settled : (before : List Char) → (values : List Value) → Prop
  | nil : Settled [] []
  | blank {c : Char} {before : List Char} {values : List Value} (hc : isBlank c = true)
    (h : Settled before values) : Settled (c :: before) values
  | text {typed text before : List Char} {values : List Value} (hquoted : Quoted typed text)
    (h : Settled before values) :
    Settled ('"' :: (typed ++ '"' :: before)) (.text (String.ofList text) :: values)
  | word {word : List Char} {c : Char} {before : List Char} {values : List Value}
    (hword : Bare word) (hc : isBlank c = true) (h : Settled (c :: before) values) :
    Settled (word ++ c :: before) (literal word :: values)

/-- The last quote that opens a text is never closed. -/
def LeftOpen (line : List Char) : Prop :=
  ∃ before values behind, Settled before values ∧ Unclosed behind ∧ line = before ++ '"' :: behind

variable {typed text behind word blanks before : List Char} {values : List Value} {c : Char}

/-! Between quotes -/

theorem quoted_escape (text : List Char) : Quoted (text.flatMap escape) text := by
  induction text with
  | nil => exact .nil
  | cons c text ih =>
    rw [List.flatMap_cons, escape]
    split_ifs with hline hspecial
    · rw [hline]
      exact .escaped 'n' ih
    · have hn : c ≠ 'n' := by
        rintro rfl
        exact absurd hspecial (by decide)
      simpa [hn] using Quoted.escaped c ih
    · exact .plain (not_or.1 hspecial).1 (not_or.1 hspecial).2 ih

theorem Quoted.append {more : List Char} (h : Quoted typed text) (hquote : '"' ∉ more)
    (hescape : '\\' ∉ more) : Quoted (typed ++ more) (text ++ more) := by
  induction h with
  | nil =>
    induction more with
    | nil => exact .nil
    | cons c more ih =>
      rw [List.mem_cons, not_or] at hquote hescape
      exact .plain (Ne.symm hquote.1) (Ne.symm hescape.1) (ih hquote.2 hescape.2)
  | plain hquote hescape _ ih => exact .plain hquote hescape ih
  | escaped c _ ih => exact .escaped c ih

theorem Quoted.concat_escaped (h : Quoted typed text) (c : Char) :
    Quoted (typed ++ ['\\', c]) (text ++ [if c = 'n' then '\n' else c]) := by
  induction h with
  | nil => exact .escaped c .nil
  | plain hquote hescape _ ih => exact .plain hquote hescape ih
  | escaped d _ ih => exact .escaped d ih

theorem not_mem_of_allBlank {c : Char} (h : AllBlank blanks) (hc : isBlank c = false) :
    c ∉ blanks := fun hmem => by rw [h c hmem] at hc; cases hc

/-- Blanks at the end close nothing: the first may be escaped, the others belong to the text. -/
theorem Unclosed.append (h : Unclosed behind) (hblanks : AllBlank blanks) :
    Unclosed (behind ++ blanks) := by
  obtain ⟨typed, text, hquoted, rfl | rfl⟩ := h
  · exact ⟨_, _, hquoted.append (not_mem_of_allBlank hblanks rfl)
      (not_mem_of_allBlank hblanks rfl), .inl rfl⟩
  · cases blanks with
    | nil => exact ⟨typed, text, hquoted, .inr (by simp)⟩
    | cons c blanks =>
      have hrest := (List.forall_mem_cons.1 hblanks).2
      refine ⟨_, _, (hquoted.concat_escaped c).append (not_mem_of_allBlank hrest rfl)
        (not_mem_of_allBlank hrest rfl), .inl ?_⟩
      simp

theorem Quoted.closeQuote_append (h : Quoted typed text) (read cs : List Char) :
    closeQuote read (typed ++ cs) = closeQuote (text.reverse ++ read) cs := by
  induction h generalizing read with
  | nil => rfl
  | plain hquote hescape _ ih => simp [closeQuote, hquote, hescape, ih]
  | escaped c _ ih => simp [closeQuote, ih]

theorem Quoted.closeQuote (h : Quoted typed text) (rest : List Char) :
    closeQuote [] (typed ++ '"' :: rest) = some (text, rest) := by
  rw [h.closeQuote_append]
  simp [Shell.closeQuote]

theorem Unclosed.closeQuote (h : Unclosed behind) : closeQuote [] behind = none := by
  obtain ⟨typed, text, hquoted, rfl | rfl⟩ := h
  · rw [← List.append_nil behind, hquoted.closeQuote_append]
    rfl
  · rw [hquoted.closeQuote_append]
    rfl

theorem closed_or_unclosed (cs : List Char) :
    (∃ typed text rest, Quoted typed text ∧ cs = typed ++ '"' :: rest) ∨ Unclosed cs := by
  -- Whatever has been read already, the reader goes through the same steps.
  have read : List Char := []
  fun_induction closeQuote read cs with
  | case1 => exact .inr ⟨[], [], .nil, .inl rfl⟩
  | case2 => exact .inr ⟨[], [], .nil, .inr rfl⟩
  | case3 read c cs ih =>
    obtain ⟨typed, text, rest, hquoted, rfl⟩ | ⟨typed, text, hquoted, rfl | rfl⟩ := ih
    · exact .inl ⟨_, _, rest, .escaped c hquoted, rfl⟩
    · exact .inr ⟨_, _, .escaped c hquoted, .inl rfl⟩
    · exact .inr ⟨_, _, .escaped c hquoted, .inr rfl⟩
  | case4 read cs => exact .inl ⟨[], [], cs, .nil, rfl⟩
  | case5 read c cs hlast hmore hquote ih =>
    have hescape : c ≠ '\\' := fun hc => by
      cases cs with
      | nil => exact hlast hc rfl
      | cons d cs => exact hmore d cs hc rfl
    obtain ⟨typed, text, rest, hquoted, rfl⟩ | ⟨typed, text, hquoted, rfl | rfl⟩ := ih
    · exact .inl ⟨_, _, rest, .plain hquote hescape hquoted, rfl⟩
    · exact .inr ⟨_, _, .plain hquote hescape hquoted, .inl rfl⟩
    · exact .inr ⟨_, _, .plain hquote hescape hquoted, .inr rfl⟩

/-! One literal after another -/

theorem literalsFrom_quote (values : List Value) (cs : List Char) :
    literalsFrom values ('"' :: cs) = (closeQuote [] cs).bind fun (text, rest) =>
      literalsFrom (.text (String.ofList text) :: values) rest := by
  rw [literalsFrom, if_neg (by decide), if_pos rfl]
  split
  · rename_i hclosed
    rw [hclosed]
    rfl
  · rename_i hclosed
    rw [hclosed]
    rfl

theorem literalsFrom_append (values earlier : List Value) (line : List Char) :
    literalsFrom (values ++ earlier) line =
      (literalsFrom values line).map (earlier.reverse ++ ·) := by
  fun_induction literalsFrom values line with
  | case1 values => simp [literalsFrom]
  | case2 values c cs hblank ih => rw [literalsFrom, if_pos hblank, ih]
  | case3 values cs text rest hclosed hblank ih =>
    rw [literalsFrom_quote, hclosed]
    exact ih
  | case4 values cs hclosed hblank =>
    rw [literalsFrom_quote, hclosed]
    rfl
  | case5 values c cs hblank hquote ih =>
    rw [literalsFrom, if_neg hblank, if_neg hquote, ← List.cons_append, ih]

theorem literalsFrom_singleton (v : Value) (line : List Char) :
    literalsFrom [v] line = (literals line).map (v :: ·) := literalsFrom_append [] [v] line

@[simp] theorem literals_nil : literals [] = some [] := by
  rw [literals, literalsFrom, List.reverse_nil]

theorem literals_blank (h : isBlank c = true) (cs : List Char) :
    literals (c :: cs) = literals cs := by
  rw [literals, literalsFrom, if_pos h, literals]

theorem literals_blanks (h : AllBlank blanks) (cs : List Char) :
    literals (blanks ++ cs) = literals cs := by
  induction blanks with
  | nil => rfl
  | cons c blanks ih =>
    obtain ⟨hc, hblanks⟩ := List.forall_mem_cons.1 h
    rw [List.cons_append, literals_blank hc, ih hblanks]

theorem literals_text (h : Quoted typed text) (rest : List Char) :
    literals ('"' :: (typed ++ '"' :: rest)) =
      (literals rest).map (.text (String.ofList text) :: ·) := by
  rw [literals, literalsFrom_quote, h.closeQuote, ← literalsFrom_singleton]
  rfl

theorem literals_unclosed (h : Unclosed behind) : literals ('"' :: behind) = none := by
  rw [literals, literalsFrom_quote, h.closeQuote]
  rfl

theorem literals_word {rest : List Char} (h : Bare word)
    (hrest : ∀ c ∈ rest.head?, isBlank c = true) :
    literals (word ++ rest) = (literals rest).map (literal word :: ·) := by
  cases word with
  | nil => exact absurd rfl h.ne_nil
  | cons c word =>
    have hc := h.noBlank c List.mem_cons_self
    have hquote : c ≠ '"' := fun hc => h.unquoted (by rw [hc]; rfl)
    have hword : ∀ d ∈ word, (!isBlank d) = true := fun d hd => by
      simp [h.noBlank d (List.mem_cons_of_mem c hd)]
    have htake : rest.takeWhile (!isBlank ·) = [] := by
      cases rest with
      | nil => rfl
      | cons d rest => simp [hrest d rfl]
    have hdrop : rest.dropWhile (!isBlank ·) = rest := by
      cases rest with
      | nil => rfl
      | cons d rest => simp [hrest d rfl]
    rw [literals, List.cons_append, literalsFrom, if_neg (by simp [hc]), if_neg hquote,
      List.takeWhile_append_of_pos hword, List.dropWhile_append_of_pos hword, htake, hdrop,
      List.append_nil, literalsFrom_singleton]

theorem literals_lastWord (h : Bare word) (hblanks : AllBlank blanks) :
    literals (word ++ blanks) = some [literal word] := by
  have hnone : literals blanks = some [] := by simpa using literals_blanks hblanks []
  rw [literals_word h fun c hc => hblanks c (List.mem_of_mem_head? hc), hnone]
  rfl

theorem literals_word_alone (h : Bare word) : literals word = some [literal word] := by
  have hnone : AllBlank [] := nofun
  simpa using literals_lastWord h hnone

/-- The values of what is settled come before those of the rest, whatever the rest is. -/
theorem Settled.literals (h : Settled before values) (behind : List Char) :
    literals (before ++ behind) = (literals behind).map (values ++ ·) := by
  induction h with
  | nil => simp
  | blank hc _ ih => rw [List.cons_append, literals_blank hc, ih]
  | text hquoted _ ih =>
    rw [List.cons_append, List.append_assoc, List.cons_append, literals_text hquoted, ih,
      Option.map_map]
    rfl
  | word hword hc _ ih =>
    rw [List.append_assoc, literals_word hword (by simpa using hc), ih, Option.map_map]
    rfl

/-- What may stand at the end of a line: nothing, a word, or a text that is not closed. -/
inductive Ending : List Char → Prop
  | nil : Ending []
  | word {word : List Char} (h : Bare word) : Ending word
  | unclosed {behind : List Char} (h : Unclosed behind) : Ending ('"' :: behind)

theorem Ending.head {ending : List Char} (h : Ending ending) :
    ∀ c ∈ ending.head?, isBlank c = false := by
  cases h with
  | nil => simp
  | word h => exact fun c hc => h.noBlank c (List.mem_of_mem_head? hc)
  | unclosed h => simp; decide

theorem exists_ending (line : List Char) :
    ∃ before values ending, Settled before values ∧ Ending ending ∧ line = before ++ ending := by
  -- By the steps of the reader; the values read before do not matter.
  have earlier : List Value := []
  fun_induction literalsFrom earlier line with
  | case1 => exact ⟨[], [], [], .nil, .nil, rfl⟩
  | case2 earlier c cs hblank ih =>
    obtain ⟨before, values, ending, hsettled, hending, rfl⟩ := ih
    exact ⟨_, _, ending, hsettled.blank hblank, hending, rfl⟩
  | case3 earlier cs text rest hclosed hblank ih =>
    obtain ⟨typed, text', rest', hquoted, rfl⟩ | hunclosed := closed_or_unclosed cs
    · rw [hquoted.closeQuote] at hclosed
      cases hclosed
      obtain ⟨before, values, ending, hsettled, hending, rfl⟩ := ih
      exact ⟨_, _, ending, hsettled.text hquoted, hending, by simp⟩
    · rw [hunclosed.closeQuote] at hclosed
      cases hclosed
  | case4 earlier cs hopen hblank =>
    obtain ⟨typed, text, rest, hquoted, rfl⟩ | hunclosed := closed_or_unclosed cs
    · rw [hquoted.closeQuote] at hopen
      cases hopen
    · exact ⟨[], [], _, .nil, .unclosed hunclosed, rfl⟩
  | case5 earlier c cs hblank hquote ih =>
    have hword : Bare (c :: cs.takeWhile (!isBlank ·)) := by
      refine ⟨by simp, fun d hd => ?_, by simpa using hquote⟩
      obtain rfl | hd := List.mem_cons.1 hd
      · simpa using hblank
      · simpa using List.mem_takeWhile_imp hd
    have hsplit : c :: cs = (c :: cs.takeWhile (!isBlank ·)) ++ cs.dropWhile (!isBlank ·) := by
      rw [List.cons_append, List.takeWhile_append_dropWhile]
    have hhead {d : Char} {rest : List Char} (hrest : cs.dropWhile (!isBlank ·) = d :: rest) :
        isBlank d = true := by
      simpa [hrest] using List.head_dropWhile_not (!isBlank ·) (l := cs) (by simp [hrest])
    obtain ⟨before, values, ending, hsettled, hending, hrest⟩ := ih
    cases before with
    | nil =>
      cases ending with
      | nil =>
        rw [hrest] at hsplit
        exact ⟨[], [], _, .nil, .word hword, by simpa using hsplit⟩
      | cons d ending =>
        have hd := hending.head d rfl
        rw [hhead hrest] at hd
        cases hd
    | cons d before =>
      exact ⟨_, _, ending, hsettled.word hword (hhead hrest), hending, by rw [hsplit, hrest]; simp⟩

theorem Ending.literals {ending : List Char} (h : Ending ending) :
    (∃ values, literals ending = some values) ∨
      literals ending = none ∧ ∃ behind, Unclosed behind ∧ ending = '"' :: behind := by
  cases h with
  | nil => exact .inl ⟨[], literals_nil⟩
  | word h => exact .inl ⟨_, literals_word_alone h⟩
  | unclosed h => exact .inr ⟨literals_unclosed h, _, h, rfl⟩

theorem literals_eq_none_iff (line : List Char) : literals line = none ↔ LeftOpen line := by
  constructor
  · intro hnone
    obtain ⟨before, values, ending, hsettled, hending, rfl⟩ := exists_ending line
    rw [hsettled.literals, Option.map_eq_none_iff] at hnone
    obtain ⟨_, hsome⟩ | ⟨-, behind, hunclosed, rfl⟩ := hending.literals
    · rw [hsome] at hnone
      cases hnone
    · exact ⟨before, values, behind, hsettled, hunclosed, rfl⟩
  · rintro ⟨before, values, behind, hsettled, hunclosed, rfl⟩
    rw [hsettled.literals, literals_unclosed hunclosed]
    rfl

/-- Blanks at the end of a line are nothing to it, even where a text is left open. -/
theorem literals_append (line : List Char) (h : AllBlank blanks) :
    literals (line ++ blanks) = literals line := by
  obtain ⟨before, values, ending, hsettled, hending, rfl⟩ := exists_ending line
  rw [List.append_assoc, hsettled.literals, hsettled.literals]
  congr 1
  cases hending with
  | nil => simpa using literals_blanks h []
  | word hword => rw [literals_lastWord hword h, literals_word_alone hword]
  | unclosed hunclosed =>
    rw [List.cons_append, literals_unclosed hunclosed, literals_unclosed (hunclosed.append h)]

end TupleClient.Shell
