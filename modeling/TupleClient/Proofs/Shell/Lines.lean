import TupleClient.Proofs.Shell.Scanning

/-!
Lines as they are typed: values with blanks around them, and the commands that take such values.
-/
namespace TupleClient.Shell

open Text

def laid (items : List (Literal × List Char)) : List Char :=
  items.flatMap fun item => item.1.spell ++ item.2

/-- A list of values as it is typed: blanks may stand around it, and at least one stands between
two values. -/
structure Row where
  front : List Char
  items : List (Literal × List Char)
  front_blank : AllBlank front
  gap_blank : ∀ item ∈ items, AllBlank item.2
  apart : ∀ item ∈ items.dropLast, item.2 ≠ []

namespace Row

def typed (r : Row) : List Char := r.front ++ laid r.items

def values (r : Row) : List Value := r.items.map (·.1.value)

end Row

inductive Verb where
  | insert
  | replace
  | select
  | delete
deriving DecidableEq

namespace Verb

def name : Verb → String
  | insert => "insert"
  | replace => "replace"
  | select => "select"
  | delete => "delete"

/-- What is asked for. Reading and deleting go by the first index; reading without a key gives
all. -/
def request (space : String) (values : List Value) : Verb → Request
  | insert => .insert (.named space) values
  | replace => .replace (.named space) values
  | select => .select (.named space) (.id 0) values 0 selectLimit
      (if values.isEmpty then .all else .eq)
  | delete => .delete (.named space) (.id 0) values

end Verb

/-- A command as it is typed: a word in either case, a space and values; to delete takes a key. -/
structure Line where
  verb : Verb
  front : List Char
  word : List Char
  gap : List Char
  space : List Char
  row : Row
  front_blank : AllBlank front
  word_eq : word.map Char.toLower = verb.name.toList
  gap_blank : AllBlank gap
  gap_ne : gap ≠ []
  space_noBlank : NoBlank space
  space_ne : space ≠ []
  apart : row.items ≠ [] → row.front ≠ []
  key : verb = .delete → row.items ≠ []

namespace Line

def typed (l : Line) : List Char := l.front ++ l.word ++ l.gap ++ l.space ++ l.row.typed

def request (l : Line) : Request := l.verb.request (String.ofList l.space) l.row.values

end Line

variable {cs blanks front word gap space typed : List Char} {items : List (Literal × List Char)}
  {values : List Value}

/-! Values in a row -/

/-- A literal is read as its value, unless it runs into the next one. -/
theorem literals_spell (l : Literal) {rest : List Char}
    (hrest : ∀ c ∈ rest.head?, isBlank c = true) :
    literals (l.spell ++ rest) = (literals rest).map (l.value :: ·) := by
  obtain ⟨hbare, hvalue⟩ | ⟨s, rfl⟩ := l.spell_cases
  · rw [literals_word hbare hrest, hvalue]
  · simpa [Literal.spell, Literal.value] using literals_text (quoted_escape s.toList) rest

theorem literals_laid (hblank : ∀ item ∈ items, AllBlank item.2)
    (hapart : ∀ item ∈ items.dropLast, item.2 ≠ []) :
    literals (laid items) = some (items.map (·.1.value)) := by
  induction items with
  | nil => exact literals_nil
  | cons item items ih =>
    obtain ⟨hgap, hrest⟩ := List.forall_mem_cons.1 hblank
    have hread : literals (laid items) = some (items.map (·.1.value)) := by
      refine ih hrest fun item hitem => hapart item ?_
      cases items with
      | nil => cases hitem
      | cons _ _ => exact List.mem_cons_of_mem _ hitem
    have hhead : ∀ c ∈ (item.2 ++ laid items).head?, isBlank c = true := by
      cases items with
      | nil =>
        rw [laid, List.flatMap_nil, List.append_nil]
        exact fun c hc => hgap c (List.mem_of_mem_head? hc)
      | cons next items =>
        obtain ⟨c, gap, hgap'⟩ := List.exists_cons_of_ne_nil (hapart item List.mem_cons_self)
        rw [hgap']
        simpa [hgap'] using hgap c
    rw [laid, List.flatMap_cons, ← laid, List.append_assoc, literals_spell _ hhead,
      literals_blanks hgap, hread]
    rfl

theorem Row.literals_typed (r : Row) : literals r.typed = some r.values := by
  rw [Row.typed, literals_blanks r.front_blank, literals_laid r.gap_blank r.apart, Row.values]

/-! A command and its values -/

theorem spaceAndValues_typed (word : List Char) (hspace : NoBlank space) (hne : space ≠ [])
    (hhead : ∀ c ∈ typed.head?, isBlank c = true) (hread : literals typed = some values) :
    spaceAndValues word (space ++ trimEnd typed) =
      .ok (.named (String.ofList space), values) := by
  obtain ⟨blanks, hblanks, hsplit⟩ := exists_trimEnd typed
  rw [hsplit, literals_append _ hblanks] at hread
  -- The blank that ends the name is cut off before the values are read.
  have hwords : ∃ behind, splitWord (space ++ trimEnd typed) = (space, behind) ∧
      literals behind = some values := by
    cases htrim : trimEnd typed with
    | nil =>
      rw [htrim] at hread
      exact ⟨[], by rw [List.append_nil, splitWord_of_noBlank hspace], hread⟩
    | cons c rest =>
      have hc : isBlank c = true := hhead c (by rw [hsplit, htrim]; rfl)
      rw [htrim, literals_blank hc] at hread
      exact ⟨rest, splitWord_append hspace hc rest, hread⟩
  obtain ⟨behind, hwords, hbehind⟩ := hwords
  unfold spaceAndValues
  rw [hwords]
  cases space with
  | nil => exact absurd rfl hne
  | cons c space =>
    simp only [valuesOf, hbehind]
    rfl

theorem requestOf_verb {verb : Verb} {name : String} {rest : List Char} (line : List Char)
    (hword : word.map Char.toLower = verb.name.toList)
    (hread : spaceAndValues word rest = .ok (.named name, values))
    (hkey : verb = .delete → values ≠ []) :
    requestOf word rest line = .ok (verb.request name values) := by
  unfold requestOf
  rw [hword, String.ofList_toList]
  cases verb with
  | insert =>
    simp only [Verb.name, hread]
    rfl
  | replace =>
    simp only [Verb.name, hread]
    rfl
  | select =>
    simp only [Verb.name, hread]
    rfl
  | delete =>
    obtain ⟨v, rest, rfl⟩ := List.exists_cons_of_ne_nil (hkey rfl)
    simp only [Verb.name, hread]
    rfl

theorem toLower_of_isBlank {c : Char} (h : isBlank c = true) : c.toLower = c := by
  refine dif_neg fun hupper => ?_
  have hbounds : 65 ≤ c.toNat ∧ c.toNat ≤ 90 := by
    simpa [UInt32.le_iff_toNat_le] using hupper
  simp only [isBlank, Bool.or_eq_true, Bool.and_eq_true, decide_eq_true_eq, beq_iff_eq] at h
  omega

theorem noBlank_of_map_toLower (h : NoBlank (word.map Char.toLower)) : NoBlank word := by
  intro c hc
  by_contra hblank
  rw [Bool.not_eq_false] at hblank
  have hlower := h c.toLower (List.mem_map_of_mem hc)
  rw [toLower_of_isBlank hblank, hblank] at hlower
  cases hlower

theorem trim_typed (hfront : AllBlank front) (hword : NoBlank word) (hne : word ≠ [])
    (hspace : NoBlank space) (hspace' : space ≠ []) :
    trim (front ++ word ++ gap ++ space ++ typed) = word ++ gap ++ space ++ trimEnd typed := by
  have hhead : ∀ c ∈ (word ++ gap ++ space ++ typed).head?, isBlank c = false := by
    obtain ⟨c, rest, rfl⟩ := List.exists_cons_of_ne_nil hne
    simpa using hword c List.mem_cons_self
  rw [trim, List.append_assoc front, List.append_assoc front, List.append_assoc front,
    trimStart_append hfront, trimStart_of_head hhead, trimEnd_append_of_last]
  refine ⟨space.getLast hspace', ?_, hspace _ (List.getLast_mem hspace')⟩
  rw [List.getLast?_append, List.getLast?_eq_some_getLast hspace']
  rfl

theorem trim_behind (hgap : AllBlank gap) (hspace : NoBlank space) (hne : space ≠ []) :
    trim (gap ++ (space ++ trimEnd typed)) = space ++ trimEnd typed := by
  obtain ⟨blanks, hblanks, htyped⟩ := exists_trimEnd typed
  have hcut : trimEnd (trimEnd typed) = trimEnd typed := trimEnd_of_last (last_trimEnd typed)
  obtain ⟨c, rest, rfl⟩ := List.exists_cons_of_ne_nil hne
  rw [trim, trimStart_append hgap, trimStart_of_head, trimEnd_append_of_last, hcut]
  · exact ⟨_, List.getLast?_eq_some_getLast hne, hspace _ (List.getLast_mem hne)⟩
  · simpa using hspace c List.mem_cons_self

theorem parse_eq {verb : Verb} {r : Request} {line behind : List Char}
    (hword : word.map Char.toLower = verb.name.toList)
    (htrim : trim cs = line) (hsplit : splitWord line = (word, behind))
    (hrequest : requestOf word (trim behind) line = .ok r) :
    Command.parse (String.ofList cs) = .ok (.request r) := by
  simp only [Command.parse, String.toList_ofList, htrim, hsplit, hword, String.ofList_toList,
    hrequest]
  cases verb <;> rfl

namespace Line

theorem noBlank_word (l : Line) : NoBlank l.word := by
  refine noBlank_of_map_toLower ?_
  rw [l.word_eq]
  cases l.verb <;> decide

theorem word_ne (l : Line) : l.word ≠ [] := by
  intro hnil
  have hname := l.word_eq
  rw [hnil] at hname
  cases hverb : l.verb <;> simp [hverb, Verb.name] at hname

theorem head_row (l : Line) : ∀ c ∈ l.row.typed.head?, isBlank c = true := by
  cases hfront : l.row.front with
  | nil =>
    have hitems : l.row.items = [] := by
      by_contra hne
      exact l.apart hne hfront
    rw [Row.typed, hfront, hitems]
    exact fun c hc => nomatch hc
  | cons c front =>
    rw [Row.typed, hfront]
    simpa [hfront] using l.row.front_blank c

theorem parse_typed (l : Line) :
    Command.parse (String.ofList l.typed) = .ok (.request l.request) := by
  obtain ⟨c, gap, hgap⟩ := List.exists_cons_of_ne_nil l.gap_ne
  have hblank : isBlank c = true ∧ AllBlank gap := by
    have hall := l.gap_blank
    rw [hgap] at hall
    exact List.forall_mem_cons.1 hall
  have htrim : trim l.typed = l.word ++ l.gap ++ l.space ++ trimEnd l.row.typed :=
    trim_typed l.front_blank l.noBlank_word l.word_ne l.space_noBlank l.space_ne
  have hsplit : splitWord (l.word ++ l.gap ++ l.space ++ trimEnd l.row.typed) =
      (l.word, gap ++ (l.space ++ trimEnd l.row.typed)) := by
    rw [List.append_assoc, List.append_assoc, hgap]
    exact splitWord_append l.noBlank_word hblank.1 _
  have hread := spaceAndValues_typed l.word l.space_noBlank l.space_ne l.head_row
    l.row.literals_typed
  rw [← trim_behind hblank.2 l.space_noBlank l.space_ne] at hread
  refine parse_eq l.word_eq htrim hsplit (requestOf_verb _ l.word_eq hread fun hdelete => ?_)
  simpa [Row.values] using l.key hdelete

end Line

/-- What is written as a literal is read as what it was: a row of values as these values, and a
command on a space with values as its request, however many blanks stand in it. Of all lines only
those whose last text is left open have no values, and that is their error. -/
theorem typed_is_read_back :
    (∀ row : Row, valuesOf row.typed = .ok row.values) ∧
    (∀ l : Line, Command.parse (String.ofList l.typed) = .ok (.request l.request)) ∧
    (∀ line e, valuesOf line = .error e ↔ LeftOpen line ∧ e = .unterminatedText) := by
  refine ⟨fun row => ?_, Line.parse_typed, fun line e => ?_⟩
  · rw [valuesOf, row.literals_typed]
  · rw [← literals_eq_none_iff, valuesOf]
    cases literals line with
    | none => simp [eq_comm]
    | some values => simp

theorem typed_is_read_back_of_insert :
    Command.parse " Insert users  \"a \\\"b\" -1\n" =
      .ok (.request (.insert (.named "users") [.text "a \"b", .int (-1)])) :=
  typed_is_read_back.2.1 {
    verb := .insert
    front := [' ']
    word := ['I', 'n', 's', 'e', 'r', 't']
    gap := [' ']
    space := ['u', 's', 'e', 'r', 's']
    row := {
      front := [' ', ' ']
      items := [(.text "a \"b", [' ']), (.int (-1) (by decide) (by decide), ['\n'])]
      front_blank := by decide
      gap_blank := by decide
      apart := by decide }
    front_blank := by decide
    word_eq := by decide
    gap_blank := by decide
    gap_ne := by decide
    space_noBlank := by decide
    space_ne := by decide
    apart := by decide
    key := nofun }

end TupleClient.Shell
