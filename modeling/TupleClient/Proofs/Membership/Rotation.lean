import Mathlib.Data.List.Induction
import Mathlib.Data.List.Sort
import Mathlib.Data.List.Rotate
import TupleClient.Membership
import TupleClient.Proofs.Text.Utf8

/-!
Where to connect while the members of a cluster come and go. Polls put the list of addresses in
place, wishes for an address go round in it, and neither a poll that fails nor one that tells
nothing new disturbs them.
-/
namespace TupleClient.Membership

/-! Members in order -/

theorem mem_insertInto {member x : String} {list : List String} :
    x ∈ insertInto member list ↔ x = member ∨ x ∈ list := by
  induction list with
  | nil => simp [insertInto]
  | cons y list ih =>
    simp only [insertInto]
    split
    · simp
    split
    · rename_i heq
      simp [heq]
    · simp [ih, or_left_comm]

theorem mem_sorted {x : String} {members : List String} : x ∈ sorted members ↔ x ∈ members := by
  induction members with
  | nil => simp [sorted]
  | cons member members ih => simp [sorted, mem_insertInto, ← ih]

theorem pairwise_insertInto {member : String} {list : List String} (h : list.Pairwise (· < ·)) :
    (insertInto member list).Pairwise (· < ·) := by
  induction list with
  | nil => simp [insertInto]
  | cons x list ih =>
    obtain ⟨hx, hlist⟩ := List.pairwise_cons.1 h
    simp only [insertInto]
    split
    · rename_i hlt
      refine List.pairwise_cons.2 ⟨fun y hy => ?_, h⟩
      obtain rfl | hy := List.mem_cons.1 hy
      · exact hlt
      · exact String.lt_trans hlt (hx y hy)
    split
    · exact h
    · rename_i hge hne
      have hlt : x < member := Std.lt_of_le_of_ne (String.not_lt.1 hge) (Ne.symm hne)
      refine List.pairwise_cons.2 ⟨fun y hy => ?_, ih hlist⟩
      obtain rfl | hy := mem_insertInto.1 hy
      · exact hlt
      · exact hx y hy

theorem pairwise_sorted (members : List String) : (sorted members).Pairwise (· < ·) := by
  induction members with
  | nil => exact .nil
  | cons member members ih => exact pairwise_insertInto ih

def Same (a b : List String) : Prop := ∀ m, m ∈ a ↔ m ∈ b

theorem sorted_eq_iff {a b : List String} : sorted a = sorted b ↔ Same a b := by
  refine ⟨fun h m => ?_, fun h => ?_⟩
  · rw [← mem_sorted, h, mem_sorted]
  · have hirrefl : Std.Irrefl fun x y : String => x < y := ⟨String.lt_irrefl⟩
    have hantisymm : Std.Antisymm fun x y : String => x < y :=
      ⟨fun _ _ hlt hgt => absurd hgt (String.lt_asymm hlt)⟩
    exact (pairwise_sorted a).eq_of_mem_iff (pairwise_sorted b) fun m => by
      rw [mem_sorted, mem_sorted]
      exact h m

/-! Polls and wishes -/

/-- A poll, whose answer gives the members in any order and however often, or a wish for the next
address. -/
inductive Event where
  | poll (attached : Option String) (pending : Nat) (answer : Except ClientError (List String))
  | next

def Event.reported : Event → Option (List String)
  | .poll _ _ (.ok members) => some members
  | _ => none

def Event.isNext : Event → Bool
  | .next => true
  | _ => false

/-- The members of the last poll that gave any. -/
def lastReport (es : List Event) : Option (List String) := (es.filterMap Event.reported).getLast?

def wishes (es : List Event) : Nat := es.countP Event.isNext

/-- Other members are reported than the last time, or it is the first time. -/
def Event.Replaces (last : Option (List String)) (e : Event) : Prop :=
  ∃ members, e.reported = some members ∧ ∀ known, last = some known → ¬ Same known members

structure Rota where
  known : Option (List String)
  addresses : Addresses

namespace Rota

def start (configured : List String) : Rota := ⟨none, .ofList configured⟩

/-- One event, with the address that is given if one is wished for. -/
def step (r : Rota) : Event → Rota × List (Option String)
  | .poll attached pending answer =>
    let verdict := Membership.poll r.known r.addresses attached pending (answer.map sorted)
    (⟨verdict.known, verdict.addresses⟩, [])
  | .next => ({ r with addresses := r.addresses.next.1 }, [r.addresses.next.2])

def after (r : Rota) : List Event → Rota
  | [] => r
  | e :: es => (r.step e).1.after es

def given (r : Rota) : List Event → List (Option String)
  | [] => []
  | e :: es => (r.step e).2 ++ (r.step e).1.given es

theorem after_append (r : Rota) (es fs : List Event) :
    r.after (es ++ fs) = (r.after es).after fs := by
  induction es generalizing r with
  | nil => rfl
  | cons e es ih => exact ih _

end Rota

theorem lastReport_concat (es : List Event) (e : Event) :
    lastReport (es ++ [e]) = e.reported.or (lastReport es) := by
  cases h : e.reported <;> simp [lastReport, List.filterMap_append, h]

theorem replaces_iff {last : Option (List String)} {e : Event} :
    e.Replaces last ↔ ∃ members, e.reported = some members ∧
      last.map sorted ≠ some (sorted members) := by
  refine exists_congr fun members => and_congr_right fun _ => ?_
  cases last with
  | none => simp
  | some known => simp [sorted_eq_iff]

theorem same_of_not_replaces {last : Option (List String)} {e : Event} {members : List String}
    (h : ¬ e.Replaces last) (he : e.reported = some members) :
    last.map sorted = some (sorted members) :=
  of_not_not fun hne => h (replaces_iff.2 ⟨members, he, hne⟩)

/-- Events from the time when a list was put in place, at first or by a poll, with no other list
put in place among them. -/
structure Period (before period : List Event) : Prop where
  begins : before = [] ∨ ∃ earlier e, before = earlier ++ [e] ∧ e.Replaces (lastReport earlier)
  lasts : ∀ e ∈ period, ¬ e.Replaces (lastReport before)

namespace Rota

variable {r : Rota} {e : Event} {last : Option (List String)} {list members : List String}
  {cursor : Nat}

theorem known_step (r : Rota) (e : Event) :
    (r.step e).1.known = (e.reported.map sorted).or r.known := by
  cases e with
  | next => rfl
  | poll attached pending answer =>
    cases answer with
    | error e => rfl
    | ok members =>
      simp only [step, Membership.poll, Except.map, Event.reported]
      split
      · rename_i hsame
        simp [hsame]
      · rfl

theorem known_after (configured : List String) (es : List Event) :
    ((start configured).after es).known = (lastReport es).map sorted := by
  induction es using List.reverseRecOn with
  | nil => rfl
  | append_singleton es e ih =>
    rw [after_append, after, after, known_step, ih, lastReport_concat]
    cases e.reported <;> rfl

theorem step_of_replaces (hknown : r.known = last.map sorted)
    (hr : r.addresses = .rotating list cursor) (he : e.reported = some members)
    (hnew : last.map sorted ≠ some (sorted members)) :
    r.step e = (⟨some (sorted members), .rotating (sorted members) 0⟩, []) := by
  cases e with
  | next => cases he
  | poll attached pending answer =>
    cases answer with
    | error e => cases he
    | ok told =>
      cases he
      simp only [step, Membership.poll, Except.map, hknown, if_neg hnew, hr, Addresses.refresh]

theorem step_of_not_replaces (hknown : r.known = last.map sorted) (he : ¬ e.Replaces last)
    (hpoll : e.isNext = false) : r.step e = (r, []) := by
  cases e with
  | next => cases hpoll
  | poll attached pending answer =>
    cases answer with
    | error e => rfl
    | ok told =>
      have hsame : r.known = some (sorted told) := hknown.trans (same_of_not_replaces he rfl)
      simp only [step, Membership.poll, Except.map, if_pos hsame]

theorem step_next (hr : r.addresses = .rotating list cursor) (hlt : cursor + 1 < 2 ^ 64) :
    r.step .next = (⟨r.known, .rotating list (if list = [] then cursor else cursor + 1)⟩,
      [list[cursor % list.length]?]) := by
  cases list with
  | nil => simp [step, hr, Addresses.next]
  | cons address list =>
    have hadvance : Addresses.advance cursor = cursor + 1 := Nat.mod_eq_of_lt hlt
    simp only [step, hr, Addresses.next, hadvance]
    rfl

/-- As long as no list is put in place, the wishes go round in the one that is there. -/
theorem quiet (hknown : r.known = last.map sorted) (hr : r.addresses = .rotating list cursor)
    {es : List Event} (hes : ∀ e ∈ es, ¬ e.Replaces last) (hlt : cursor + wishes es < 2 ^ 64) :
    r.after es = ⟨r.known, .rotating list (if list = [] then cursor else cursor + wishes es)⟩ ∧
      r.given es = (List.range (wishes es)).map fun i => list[(cursor + i) % list.length]? := by
  induction es generalizing r cursor with
  | nil =>
    refine ⟨?_, rfl⟩
    cases r
    cases hr
    simp [after, wishes]
  | cons e es ih =>
    have ⟨he, htail⟩ := List.forall_mem_cons.1 hes
    cases hnext : e.isNext with
    | false =>
      have hwishes : wishes (e :: es) = wishes es := by simp [wishes, hnext]
      rw [hwishes] at hlt ⊢
      rw [after, given, step_of_not_replaces hknown he hnext]
      exact ih hknown hr htail hlt
    | true =>
      have hwishes : wishes (e :: es) = wishes es + 1 := by simp [wishes, hnext]
      have hisNext : e = .next := by
        cases e with
        | next => rfl
        | poll => cases hnext
      subst hisNext
      rw [hwishes] at hlt ⊢
      rw [after, given, step_next hr (by omega)]
      obtain ⟨hafter, hgiven⟩ := ih (r := ⟨r.known, .rotating list
        (if list = [] then cursor else cursor + 1)⟩) hknown rfl htail (by split <;> omega)
      rw [hafter, hgiven, List.range_succ_eq_map]
      by_cases hempty : list = []
      · simp [hempty, Function.comp_def]
      · simp [hempty, Function.comp_def, Nat.add_assoc, Nat.add_comm 1]

theorem next_of_empty {r : Rota} (hr : r.addresses = .rotating [] cursor) :
    r.step .next = (r, [none]) := by
  cases r
  cases hr
  rfl

/-- The list that is there: the configured one, or the members of the last report in order. -/
def held (configured : List String) (es : List Event) : List String :=
  ((lastReport es).map sorted).getD configured

theorem list_after (configured : List String) (es : List Event) :
    ∃ cursor, ((start configured).after es).addresses =
      .rotating (held configured es) cursor := by
  induction es using List.reverseRecOn with
  | nil => exact ⟨0, rfl⟩
  | append_singleton es e ih =>
    obtain ⟨cursor, hcursor⟩ := ih
    have hknown := known_after configured es
    rw [after_append, after, after, held, lastReport_concat]
    cases hreported : e.reported with
    | none =>
      cases e with
      | next =>
        cases hlist : held configured es with
        | nil => exact ⟨cursor, by rw [next_of_empty (hlist ▸ hcursor), hcursor]; rfl⟩
        | cons address list =>
          refine ⟨Addresses.advance cursor, ?_⟩
          simp only [step, hcursor, hlist, Addresses.next, Option.none_or]
          rw [← hlist, held]
      | poll attached pending answer =>
        refine ⟨cursor, ?_⟩
        rw [step_of_not_replaces hknown (fun ⟨members, hmembers, _⟩ => by
          rw [hreported] at hmembers
          cases hmembers) rfl, hcursor]
        rfl
    | some members =>
      by_cases hnew : (lastReport es).map sorted = some (sorted members)
      · have hstays : ¬ e.Replaces (lastReport es) := fun h => by
          obtain ⟨told, htold, hne⟩ := replaces_iff.1 h
          rw [hreported] at htold
          cases htold
          exact hne hnew
        have hpoll : e.isNext = false := by
          cases e with
          | next => cases hreported
          | poll => rfl
        refine ⟨cursor, ?_⟩
        rw [step_of_not_replaces hknown hstays hpoll, hcursor, held, hnew]
        rfl
      · exact ⟨0, by rw [step_of_replaces hknown hcursor hreported hnew]; rfl⟩

end Rota

theorem Period.begun {before period : List Event} (h : Period before period)
    (configured : List String) :
    ((Rota.start configured).after before).addresses =
      .rotating (Rota.held configured before) 0 := by
  obtain rfl | ⟨earlier, e, rfl, he⟩ := h.begins
  · rfl
  · obtain ⟨members, hmembers, hnew⟩ := replaces_iff.1 he
    obtain ⟨cursor, hcursor⟩ := Rota.list_after configured earlier
    rw [Rota.after_append, Rota.after, Rota.after,
      Rota.step_of_replaces (Rota.known_after configured earlier) hcursor hmembers hnew,
      Rota.held, lastReport_concat, hmembers]
    rfl

theorem lastReport_append (es fs : List Event) :
    lastReport (es ++ fs) = (lastReport fs).or (lastReport es) := by
  simp [lastReport, List.filterMap_append, List.getLast?_append]

theorem Period.tells_nothing {before period : List Event} (h : Period before period) :
    (lastReport (before ++ period)).map sorted = (lastReport before).map sorted := by
  rw [lastReport_append]
  cases hlast : lastReport period with
  | none => rfl
  | some members =>
    obtain ⟨e, he, hmembers⟩ := List.mem_filterMap.1 (List.mem_of_getLast? hlast)
    exact (same_of_not_replaces (h.lasts e he) hmembers).symm

theorem exists_period (es : List Event) :
    ∃ before period, es = before ++ period ∧ Period before period := by
  induction es using List.reverseRecOn with
  | nil => exact ⟨[], [], rfl, .inl rfl, nofun⟩
  | append_singleton es e ih =>
    obtain ⟨before, period, rfl, hperiod⟩ := ih
    by_cases he : e.Replaces (lastReport before)
    · obtain ⟨members, hmembers, hnew⟩ := replaces_iff.1 he
      rw [← hperiod.tells_nothing] at hnew
      exact ⟨_, [], by simp, .inr ⟨_, e, rfl, replaces_iff.2 ⟨members, hmembers, hnew⟩⟩, nofun⟩
    · exact ⟨before, period ++ [e], by simp, hperiod.begins, by
        simpa [or_imp, forall_and] using ⟨hperiod.lasts, he⟩⟩

structure Held (configured : List String) (es : List Event) (list : List String) : Prop where
  configured : lastReport es = none → list = configured
  inOrder : ∀ members, lastReport es = some members →
    list.Pairwise fun a b => Bytes.ofText a < Bytes.ofText b
  members : ∀ members, lastReport es = some members → Same list members

theorem held_held (configured : List String) (es : List Event) :
    Held configured es (Rota.held configured es) := by
  unfold Rota.held
  refine ⟨fun h => ?_, fun members h => ?_, fun members h m => ?_⟩ <;> rw [h]
  · rfl
  · exact (pairwise_sorted members).imp Bytes.ofText_lt
  · exact mem_sorted

/-- In a period the list stays, and the wishes are met one place after another, round and round: as
many wishes in a row as the list is long meet each of its places once. -/
structure Rotates (r : Rota) (period : List Event) : Prop where
  stays : (r.after period).addresses.list = r.addresses.list
  given : r.given period = (List.range (wishes period)).map fun i =>
    r.addresses.list[i % r.addresses.list.length]?
  round : ∀ early window late, period = early ++ window ++ late →
    wishes window = r.addresses.list.length →
    ∃ places : List Nat, places.Perm (List.range r.addresses.list.length) ∧
      (r.after early).given window = places.map fun i => r.addresses.list[i]?

theorem map_range_rotate (list : List String) (cursor : Nat) :
    ((List.range list.length).map fun i => list[(cursor + i) % list.length]?) =
      ((List.range list.length).rotate cursor).map fun i => list[i]? := by
  refine List.ext_getElem (by simp) fun i hi _ => ?_
  simp [List.getElem_rotate, Nat.add_comm]

theorem rotates_of_period {configured : List String} {before period : List Event}
    (h : Period before period) (hlt : wishes period < 2 ^ 64) :
    Rotates ((Rota.start configured).after before) period := by
  have hknown := Rota.known_after configured before
  have hbegun := h.begun configured
  generalize (Rota.start configured).after before = r at hknown hbegun
  generalize Rota.held configured before = list at hbegun
  have hlist : r.addresses.list = list := by rw [hbegun]; rfl
  obtain ⟨hafter, hgiven⟩ := Rota.quiet hknown hbegun h.lasts (by omega)
  refine ⟨by rw [hafter, hlist]; rfl, by rw [hgiven, hlist]; simp, ?_⟩
  rintro early window late rfl hwindow
  have hwishes : wishes (early ++ window ++ late) = wishes early + wishes window + wishes late := by
    simp only [wishes, List.countP_append]
  obtain ⟨hearly, hnext⟩ := List.forall_mem_append.1 fun e he =>
    h.lasts e (List.mem_append_left late he)
  obtain ⟨hmoved, -⟩ := Rota.quiet hknown hbegun hearly (by omega)
  generalize hturned : (if list = [] then 0 else 0 + wishes early) = turned at hmoved
  have hroom : turned + wishes window < 2 ^ 64 := by
    split at hturned <;> omega
  obtain ⟨-, hround⟩ := Rota.quiet (r := ⟨r.known, .rotating list turned⟩) hknown rfl hnext hroom
  rw [hlist] at hwindow ⊢
  refine ⟨(List.range list.length).rotate turned, List.rotate_perm _ _, ?_⟩
  rw [hmoved, hround, hwindow, map_range_rotate]

/-- Whatever polls and wishes come: the list that is there holds the members of the last report, by
their bytes and each once. Polls that fail or tell nothing new leave everything as it is, wishes go
round in the list, and an empty list has nothing to give. -/
theorem rotation_of_members (configured : List String) (es : List Event) :
    let r := (Rota.start configured).after es
    Held configured es r.addresses.list ∧
      (∀ e, e.isNext = false → ¬ e.Replaces (lastReport es) → r.step e = (r, [])) ∧
      (r.addresses.list = [] → r.step .next = (r, [none])) ∧
      (∃ before period, es = before ++ period ∧ Period before period) ∧
      ∀ before period, es = before ++ period → Period before period → wishes period < 2 ^ 64 →
        Rotates ((Rota.start configured).after before) period := by
  intro r
  obtain ⟨cursor, hr⟩ := Rota.list_after configured es
  have hlist : r.addresses.list = Rota.held configured es := by rw [hr]; rfl
  rw [hlist]
  refine ⟨held_held configured es, fun e hpoll he => ?_, fun hempty => ?_, exists_period es,
    fun before period _ hperiod hlt => rotates_of_period hperiod hlt⟩
  · exact Rota.step_of_not_replaces (Rota.known_after configured es) he hpoll
  · rw [hempty] at hr
    exact Rota.next_of_empty hr

/-- The second answer tells nothing new, and the list goes on where it was. -/
example : (Rota.start ["b", "a"]).given [.next, .poll none 0 (.ok ["d", "c", "d"]), .next,
    .poll (some "b") 1 (.ok ["c", "d"]), .poll none 0 (.error (.timeout .operation)), .next,
    .next] = [some "b", some "c", some "d", some "c"] := by decide

end TupleClient.Membership
