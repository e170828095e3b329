import Mathlib.Data.List.Flatten
import TupleClient.Greeting
import TupleClient.Proofs.Text.Base64
import TupleClient.Proofs.Text.Utf8
import TupleClient.Proofs.Text.Words
import TupleClient.Proofs.Wire.Number

/-!
The greeting of a server: which bytes of it count, what is refused, and that a greeting put together
as servers do is read for what it says.
-/
namespace TupleClient.Greeting

theorem versionOf_eq (banner : List Char) :
    versionOf banner = ((Text.words banner)[1]?).map String.ofList := by
  rw [versionOf, Text.words_eq]
  cases Text.trimStart banner with
  | nil => rfl
  | cons c rest =>
    simp only [List.getElem?_cons_succ]
    rw [Text.words_eq]
    cases hbehind : Text.trimStart (Text.splitWord (c :: rest)).2 with
    | nil => rfl
    | cons d more => simp [Text.splitWord_ne_nil (Text.isBlank_of_trimStart hbehind)]

theorem length_trim_le (s : String) :
    (Bytes.ofText (String.ofList (Text.trim s.toList))).length ≤ (Bytes.ofText s).length := by
  have hend (cs : List Char) : (Text.trimEnd cs).Sublist cs := by
    have hreverse := List.dropWhile_sublist Text.isBlank (l := cs.reverse)
    rw [Text.trimEnd]
    exact List.reverse_sublist.1 (by rwa [List.reverse_reverse])
  have hsublist : (Text.trim s.toList).Sublist s.toList :=
    (hend _).trans (List.dropWhile_sublist _)
  rw [Bytes.ofText_eq, Bytes.ofText_eq, String.toList_ofList]
  exact (hsublist.flatMap _).length_le

/-- A salt that is accepted has at least the bytes that enter the proof, and no more than its text
can hold. -/
theorem length_of_saltOf {field salt : Bytes} (h : saltOf field = .ok salt) :
    proofLength ≤ salt.length ∧ salt.length ≤ 3 * ((field.length + 3) / 4) := by
  unfold saltOf at h
  split at h
  · cases h
  · rename_i text htext
    split at h
    · cases h
    · rename_i found hdecoded
      split at h
      · cases h
      · rename_i henough
        cases h
        have hle := Base64.length_decode_le hdecoded
        have htrim := length_trim_le text
        rw [Bytes.ofText_of_toText? htext] at htrim
        exact ⟨Nat.not_lt.1 henough, by omega⟩

theorem saltOf_padded {salt : Bytes} (h : proofLength ≤ salt.length) (spaces : Nat) :
    saltOf (Base64.encode salt ++ List.replicate spaces 0x20) = .ok salt := by
  have hrange : ∀ b ∈ Base64.encode salt, 0x2b ≤ b.toNat ∧ b.toNat ≤ 0x7a := Base64.encode_range
  have hascii : ∀ b ∈ Base64.encode salt, b.toNat < 0x80 := fun b hb => by
    have := hrange b hb
    omega
  have hfield : ∀ b ∈ Base64.encode salt ++ List.replicate spaces 0x20, b.toNat < 0x80 := by
    intro b hb
    obtain hb | hb := List.mem_append.1 hb
    · exact hascii b hb
    · rw [(List.mem_replicate.1 hb).2]
      decide
  have hsymbols : Text.NoBlank ((Base64.encode salt).map Bytes.asciiChar) := by
    intro c hc
    obtain ⟨b, hb, rfl⟩ := List.mem_map.1 hc
    have := hrange b hb
    simp only [Text.isBlank, Bytes.toNat_asciiChar (hascii b hb)]
    simp
    omega
  have hspaces : Text.AllBlank ((List.replicate spaces (0x20 : UInt8)).map Bytes.asciiChar) := by
    intro c hc
    obtain ⟨b, hb, rfl⟩ := List.mem_map.1 hc
    rw [(List.mem_replicate.1 hb).2]
    decide
  have hfront : Text.AllBlank [] := nofun
  have htrim := Text.trim_around hsymbols.trimmed hfront hspaces
  rw [List.nil_append, ← List.map_append] at htrim
  simp only [saltOf, Bytes.toText?_ascii hfield, String.toList_ofList, htrim,
    Bytes.ofText_ascii hascii, Base64.decode_encode, if_neg (Nat.not_lt.2 h)]

/-! The parts of a greeting that is long enough -/

theorem parse_of_length {raw : Bytes} (h : greetingLength ≤ raw.length) :
    parse raw =
      let banner := Text.trimEnd (Utf8.lossy (raw.take lineLength))
      if product.toList.isPrefixOf banner then
        match saltOf ((raw.drop lineLength).take saltTextLength) with
        | .ok salt => .ok ⟨String.ofList banner, versionOf banner, salt⟩
        | .error reason => .error (.invalidSalt reason)
      else .error (.unknownProduct (String.ofList banner)) :=
  if_neg (Nat.not_lt.2 h)

theorem parse_cases (raw : Bytes) :
    (raw.length < greetingLength ∧ parse raw = .error (.shortGreeting raw.length)) ∨
      greetingLength ≤ raw.length ∧
        ((∃ banner, parse raw = .error (.unknownProduct banner)) ∨
          (∃ reason, parse raw = .error (.invalidSalt reason)) ∨
          ∃ banner salt, product.toList <+: banner ∧
            saltOf ((raw.drop lineLength).take saltTextLength) = .ok salt ∧
            parse raw = .ok ⟨String.ofList banner, versionOf banner, salt⟩) := by
  obtain hshort | hlong := Nat.lt_or_ge raw.length greetingLength
  · exact .inl ⟨hshort, if_pos hshort⟩
  · refine .inr ⟨hlong, ?_⟩
    rw [parse_of_length hlong]
    simp only
    split
    · rename_i hproduct
      cases hsalt : saltOf ((raw.drop lineLength).take saltTextLength) with
      | error reason => exact .inr (.inl ⟨reason, rfl⟩)
      | ok salt => exact .inr (.inr ⟨_, salt, List.isPrefixOf_iff_prefix.1 hproduct, rfl, rfl⟩)
    · exact .inl ⟨_, rfl⟩

/-- A greeting as servers put it together: a line that is filled up with blanks, the text of a salt
that is filled up with spaces, and what follows. -/
def written (line pad : String) (salt rest : Bytes) : Bytes :=
  Bytes.ofText (line ++ pad) ++ (Base64.encode salt ++
    List.replicate (lineLength - (Base64.encode salt).length) 0x20 ++ rest)

theorem parse_written {line pad : String} {salt : Bytes} (rest : Bytes)
    (hline : product.toList <+: line.toList) (hpad : Text.AllBlank pad.toList)
    (hlength : (Bytes.ofText (line ++ pad)).length = lineLength)
    (hmin : proofLength ≤ salt.length) (hmax : salt.length ≤ 33) :
    parse (written line pad salt rest) =
      .ok ⟨String.ofList (Text.trimEnd line.toList),
        ((Text.words line.toList)[1]?).map String.ofList, salt⟩ := by
  have hencoded := Base64.length_encode salt
  have hlong : greetingLength ≤ (written line pad salt rest).length := by
    simp only [written, List.length_append, List.length_replicate, hlength, lineLength,
      greetingLength]
    omega
  have hfirst : (written line pad salt rest).take lineLength = Bytes.ofText (line ++ pad) :=
    List.take_left' hlength
  have hfield : ((written line pad salt rest).drop lineLength).take saltTextLength =
      Base64.encode salt ++
        List.replicate (saltTextLength - (Base64.encode salt).length) 0x20 := by
    have hplace : (Base64.encode salt).length ≤ saltTextLength := by
      simp only [saltTextLength]
      omega
    rw [written, List.drop_left' hlength, List.append_assoc, List.take_append,
      List.take_of_length_le hplace, List.take_append_of_le_length (by
        simp only [List.length_replicate, saltTextLength, lineLength]
        omega), List.take_replicate, Nat.min_eq_left (by
        simp only [saltTextLength, lineLength]
        omega)]
  obtain ⟨blanks, hblanks, hsplit⟩ := Text.exists_trimEnd line.toList
  have hbanner : product.toList <+: Text.trimEnd line.toList :=
    Text.prefix_of_prefix_append (by decide) hblanks (hsplit ▸ hline)
  have hwords : Text.words (Text.trimEnd line.toList) = Text.words line.toList := by
    conv_rhs => rw [hsplit]
    exact (Text.words_append hblanks _).symm
  rw [parse_of_length hlong]
  simp only [hfirst, Utf8.lossy_ofText, String.toList_append, Text.trimEnd_append hpad, hfield,
    saltOf_padded hmin, List.isPrefixOf_iff_prefix.2 hbanner, if_true, versionOf_eq, hwords]

/-- How a greeting is read. One that is too short is told so, with its length; any other that is
refused has another product or no salt. Nothing counts but the first line and the field of the
salt. What is accepted names the product and has a salt of a length that its text can hold. A
greeting put together as servers do is read for what it says. -/
theorem read_for_what_it_says :
    (∀ raw n, parse raw = .error (.shortGreeting n) ↔
      raw.length < greetingLength ∧ n = raw.length) ∧
    (∀ raw e, parse raw = .error e → greetingLength ≤ raw.length →
      (∃ banner, e = .unknownProduct banner) ∨ ∃ reason, e = .invalidSalt reason) ∧
    (∀ raw other, greetingLength ≤ raw.length → greetingLength ≤ other.length →
      raw.take lineLength = other.take lineLength →
      (raw.drop lineLength).take saltTextLength = (other.drop lineLength).take saltTextLength →
      parse raw = parse other) ∧
    (∀ raw g, parse raw = .ok g → product.toList <+: g.banner.toList ∧
      proofLength ≤ g.salt.length ∧ g.salt.length ≤ 33) ∧
    ∀ line pad salt rest, product.toList <+: line.toList → Text.AllBlank pad.toList →
      (Bytes.ofText (line ++ pad)).length = lineLength → proofLength ≤ salt.length →
      salt.length ≤ 33 →
      parse (written line pad salt rest) =
        .ok ⟨String.ofList (Text.trimEnd line.toList),
          ((Text.words line.toList)[1]?).map String.ofList, salt⟩ := by
  refine ⟨fun raw n => ?_, fun raw e h hlong => ?_, fun raw other hlong hother hline hfield => ?_,
    fun raw g h => ?_, fun line pad salt rest => parse_written rest⟩
  · obtain ⟨hshort, hparse⟩ | ⟨hlong, ⟨banner, hparse⟩ | ⟨reason, hparse⟩ | ⟨banner, salt, -, -,
      hparse⟩⟩ := parse_cases raw
    · simp [hparse, hshort, eq_comm]
    all_goals simp [hparse, Nat.not_lt.2 hlong]
  · obtain ⟨hshort, -⟩ | ⟨-, ⟨banner, hparse⟩ | ⟨reason, hparse⟩ | ⟨banner, salt, -, -, hparse⟩⟩ :=
      parse_cases raw
    · omega
    all_goals
      rw [hparse] at h
      cases h
    · exact .inl ⟨banner, rfl⟩
    · exact .inr ⟨reason, rfl⟩
  · rw [parse_of_length hlong, parse_of_length hother, hline, hfield]
  · obtain ⟨-, hparse⟩ | ⟨-, ⟨banner, hparse⟩ | ⟨reason, hparse⟩ | ⟨banner, salt, hproduct, hsalt,
      hparse⟩⟩ := parse_cases raw
    all_goals
      rw [hparse] at h
      cases h
    have hfield : ((raw.drop lineLength).take saltTextLength).length ≤ 44 :=
      List.length_take_le ..
    obtain ⟨hmin, hmax⟩ := length_of_saltOf hsalt
    have hshort : salt.length ≤ 33 := by omega
    exact ⟨by simpa using hproduct, hmin, hshort⟩

theorem read_for_what_it_says_of_twenty_bytes :
    let line := "Tarantool 2.11.0 (Binary)"
    let pad := "                                      \n"
    let salt : Bytes := List.replicate 20 7
    product.toList <+: line.toList ∧ Text.AllBlank pad.toList ∧
      (Bytes.ofText (line ++ pad)).length = lineLength ∧
      parse (written line pad salt [1, 2]) = .ok ⟨line, some "2.11.0", salt⟩ := by
  have hline : product.toList <+: "Tarantool 2.11.0 (Binary)".toList := by decide
  have hpad : Text.AllBlank "                                      \n".toList := by decide
  have hlength : (Bytes.ofText ("Tarantool 2.11.0 (Binary)" ++
      "                                      \n")).length = lineLength := by decide
  exact ⟨hline, hpad, hlength, read_for_what_it_says.2.2.2.2 _ _ (List.replicate 20 7) [1, 2]
    hline hpad hlength (by decide) (by decide)⟩

end TupleClient.Greeting
