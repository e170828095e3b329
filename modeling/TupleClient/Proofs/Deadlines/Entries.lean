import Mathlib.Logic.Basic
import TupleClient.Deadlines

/-!
Entries of deadlines. They stand in order and each of them once, whatever is scheduled, cancelled
and served.
-/
namespace TupleClient.Deadlines

variable {d e x : Deadline} {es : List Deadline} {ds : Deadlines} {now : Nat}

theorem mem_insertInto : d ∈ insertInto x es ↔ d = x ∨ d ∈ es := by
  induction es with
  | nil => simp [insertInto]
  | cons e es ih =>
    unfold insertInto
    by_cases hbefore : x.before e = true
    · simp [hbefore]
    · by_cases hsame : x = e
      · subst hsame
        simp [hbefore]
      · simp [hbefore, hsame, ih, or_left_comm]

@[simp] theorem mem_schedule (ds : Deadlines) (id time : Nat) :
    d ∈ (ds.schedule id time).entries ↔ d = ⟨time, id⟩ ∨ d ∈ ds.entries := mem_insertInto

@[simp] theorem mem_cancel (ds : Deadlines) (id time : Nat) :
    d ∈ (ds.cancel id time).entries ↔ d ∈ ds.entries ∧ d ≠ ⟨time, id⟩ := by
  simp [cancel]

@[simp] theorem running_schedule (ds : Deadlines) (id time : Nat) :
    (ds.schedule id time).running = ds.running := rfl

@[simp] theorem running_cancel (ds : Deadlines) (id time : Nat) :
    (ds.cancel id time).running = ds.running := rfl

theorem service_of_running {ds : Deadlines} (h : ds.running = true) (now : Nat) :
    ds.service now =
      ({ ds with entries := ds.entries.filter (now < ·.time) },
        (ds.entries.filter (·.time ≤ now)).map (·.id)) := by
  rw [service, if_pos h]

@[simp] theorem running_service (ds : Deadlines) (now : Nat) :
    (ds.service now).1.running = ds.running := by
  unfold service
  split <;> rfl

theorem service_sublist (ds : Deadlines) (now : Nat) :
    (ds.service now).1.entries.Sublist ds.entries := by
  unfold service
  split
  · exact List.filter_sublist
  · exact .refl _

/-! The order of the entries -/

theorem before_iff : d.before e = true ↔ d.time < e.time ∨ d.time = e.time ∧ d.id < e.id := by
  simp [Deadline.before]

theorem not_before_self (d : Deadline) : d.before d = false := by simp [Deadline.before]

theorem before_trans (hde : d.before e = true) (hex : e.before x = true) : d.before x = true := by
  rw [before_iff] at hde hex ⊢
  omega

theorem before_of_ne (h : d.before e = false) (hne : d ≠ e) : e.before d = true := by
  obtain ⟨time, id⟩ := d
  obtain ⟨later, other⟩ := e
  simp only [Deadline.before, Bool.or_eq_false_iff, Bool.and_eq_false_iff, decide_eq_false_iff_not,
    beq_eq_false_iff_ne, ne_eq, Deadline.mk.injEq, not_and] at h hne
  simp only [before_iff]
  omega

/-- Earlier entries stand first, and none stands twice. -/
def Sorted (ds : Deadlines) : Prop := ds.entries.Pairwise (fun d e => d.before e = true)

theorem Sorted.nodup (h : ds.Sorted) : ds.entries.Nodup := by
  refine List.Pairwise.imp (fun {d e} hbefore heq => ?_) h
  rw [heq, not_before_self] at hbefore
  cases hbefore

theorem sorted_insertInto (d : Deadline) (h : es.Pairwise (fun d e => d.before e = true)) :
    (insertInto d es).Pairwise (fun d e => d.before e = true) := by
  induction es with
  | nil => exact List.pairwise_singleton _ d
  | cons e es ih =>
    obtain ⟨hfirst, hrest⟩ := List.pairwise_cons.1 h
    unfold insertInto
    cases hbefore : d.before e with
    | true =>
      refine List.pairwise_cons.2 ⟨fun x hx => ?_, h⟩
      rcases List.mem_cons.1 hx with rfl | hx
      · exact hbefore
      · exact before_trans hbefore (hfirst x hx)
    | false =>
      by_cases hsame : d = e
      · simpa [hsame] using h
      · simp only [hsame, if_false, Bool.false_eq_true]
        refine List.pairwise_cons.2 ⟨fun x hx => ?_, ih hrest⟩
        rcases mem_insertInto.1 hx with rfl | hx
        · exact before_of_ne hbefore hsame
        · exact hfirst x hx

theorem Sorted.time_le (h : ds.Sorted) (hfirst : ds.entries = x :: es) (hd : d ∈ ds.entries) :
    x.time ≤ d.time := by
  rw [Sorted, hfirst] at h
  rw [hfirst] at hd
  obtain rfl | hd := List.mem_cons.1 hd
  · exact Nat.le_refl _
  · have hbefore := before_iff.1 ((List.pairwise_cons.1 h).1 d hd)
    omega

theorem insertInto_of_mem (h : es.Pairwise (fun d e => d.before e = true)) (hd : d ∈ es) :
    insertInto d es = es := by
  induction es with
  | nil => cases hd
  | cons e es ih =>
    obtain ⟨hfirst, hrest⟩ := List.pairwise_cons.1 h
    obtain rfl | hd := List.mem_cons.1 hd
    · rw [insertInto, not_before_self, if_neg Bool.false_ne_true, if_pos rfl]
    · have hlater := hfirst d hd
      have hnot : ¬ d.before e = true := fun hbefore => by
        have := before_trans hbefore hlater
        rw [not_before_self] at this
        cases this
      have hne : d ≠ e := fun heq => hnot (heq ▸ hlater)
      rw [insertInto, if_neg hnot, if_neg hne, ih hrest hd]

theorem Sorted.schedule_of_mem (h : ds.Sorted) (hd : d ∈ ds.entries) :
    ds.schedule d.id d.time = ds := by
  have hsame : insertInto ⟨d.time, d.id⟩ ds.entries = ds.entries := insertInto_of_mem h hd
  rw [schedule, hsame]

theorem cancel_of_not_mem (hd : d ∉ ds.entries) : ds.cancel d.id d.time = ds := by
  have hsame : ds.entries.filter (· != ⟨d.time, d.id⟩) = ds.entries :=
    List.filter_eq_self.2 fun e he => by
      rw [bne_iff_ne]
      rintro rfl
      exact hd he
  rw [cancel, hsame]

/-! What is due -/

def due (ds : Deadlines) (now : Nat) : List Deadline :=
  if ds.running then ds.entries.filter (·.time ≤ now) else []

theorem mem_due : d ∈ ds.due now ↔ ds.running = true ∧ d ∈ ds.entries ∧ d.time ≤ now := by
  unfold due
  split <;> simp [*]

theorem due_eq_nil (h : ds.running = true → ∀ d ∈ ds.entries, now < d.time) : ds.due now = [] :=
  List.eq_nil_iff_forall_not_mem.2 fun d hd => by
    obtain ⟨hrunning, hmem, hle⟩ := mem_due.1 hd
    exact Nat.not_lt.2 hle (h hrunning d hmem)

theorem due_of_cons (hrunning : ds.running = true) (hentries : ds.entries = d :: es)
    (hle : d.time ≤ now) : ds.due now = d :: due { ds with entries := es } now := by
  simp [due, hrunning, hentries, hle]

theorem Sorted.due (h : ds.Sorted) (now : Nat) :
    (ds.due now).Pairwise (fun d e => d.before e = true) := by
  unfold Deadlines.due
  split
  · exact List.Pairwise.filter _ h
  · exact .nil

theorem service_eq (ds : Deadlines) (now : Nat) :
    (ds.service now).2 = (ds.due now).map (·.id) := by
  unfold service due
  split <;> rfl

theorem mem_service : d ∈ (ds.service now).1.entries ↔
    d ∈ ds.entries ∧ (now < d.time ∨ ds.running = false) := by
  unfold service
  split <;> simp [*]

theorem service_of_cons (hrunning : ds.running = true) (hentries : ds.entries = d :: es)
    (hle : d.time ≤ now) : (service { ds with entries := es } now).1 = (ds.service now).1 := by
  simp [service, hrunning, hentries, Nat.not_lt.2 hle]

theorem service_of_due_nil (h : ds.due now = []) : (ds.service now).1 = ds := by
  unfold service
  split
  · rename_i hrunning
    have hlater : ds.entries.filter (now < ·.time) = ds.entries :=
      List.filter_eq_self.2 fun d hd => by
        have hnot : d ∉ ds.due now := by simp [h]
        rw [mem_due] at hnot
        exact decide_eq_true (Nat.not_le.1 fun hle => hnot ⟨hrunning, hd, hle⟩)
    rw [hlater]
  · rfl

end TupleClient.Deadlines
