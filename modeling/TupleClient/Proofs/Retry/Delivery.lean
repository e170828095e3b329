import TupleClient.Proofs.Retry.Timeouts

/-!
One deadline for all tries of an operation. It bounds every try and every wait between two tries, so
that the two clocks, the one of the pipeline first, end whatever is left of it.
-/
namespace TupleClient.Retry

variable {κ : Type}

def tell (r : Retry κ) : List (Incident κ) → Report κ
  | [] => .silent
  | i :: is => (r.happen i).2.andThen ((r.happen i).1.tell is)

def Incident.labels (n : Nat) (i : Incident κ) : List (Label κ) :=
  (i.orders n).map (fun o => (some o.id, o.tag)) ++ i.plains.map fun tag => (none, tag)

def labelled (r : Retry κ) : List (Incident κ) → List (Label κ)
  | [] => []
  | i :: is => i.labels r.nextEntry ++ (r.happen i).1.labelled is

def clock (t : Nat) : List (Incident κ) → Nat
  | [] => t
  | i :: is => clock (i.now?.getD t) is

/-- From `t` on the clock never goes back, and a timer calls only for what is due. -/
def Timely (r : Retry κ) (t : Nat) : List (Incident κ) → Prop
  | [] => True
  | i :: is =>
    t ≤ i.now?.getD t ∧ i.Due r (i.now?.getD t) ∧ (r.happen i).1.Timely (i.now?.getD t) is

variable {i : Incident κ} {is later : List (Incident κ)} {n t : Nat} {log : List (Note κ)}
  {os : List (Order κ)} {r : Retry κ} {o : Order κ}

structure Between (os : List (Order κ)) (log : List (Note κ)) (r : Retry κ) : Prop where
  sound : Sound (fun _ => True) r
  tidy : Tidy ⟨r, false, [], [], false⟩
  punctual : Punctual os log ⟨r, false, [], [], false⟩

theorem between_create (settings : PipelineSettings) (catalog : Option Catalog.Cache)
    (refreshes : Bool) : Between os [] (create settings catalog refreshes : Retry κ) where
  sound := sound_create settings catalog refreshes
  tidy := tidy_create settings catalog refreshes false
  punctual := (punctual_create settings catalog refreshes false).mono (List.nil_subset os)

theorem ids_held (r : Retry κ) :
    ids r.held = (Stand.orders ⟨r, false, [], [], false⟩).map Order.id := by
  have howner (o : Owner κ) : o.label.1 = o.entry?.map (Order.id ∘ Entry.order) := by
    cases o <;> rfl
  have howners (os : List (Owner κ)) :
      (os.map Owner.label).filterMap Prod.fst = (ordersOf os).map Order.id := by
    rw [ordersOf, List.map_map, List.map_filterMap, List.filterMap_map]
    refine List.filterMap_congr fun o _ => ?_
    simpa using howner o
  have hparked (es : List (Entry κ)) :
      (es.map Entry.label).filterMap Prod.fst = (es.map Entry.order).map Order.id := by
    rw [List.filterMap_map, List.map_map, ← List.filterMap_eq_map]
    rfl
  rw [ids, held, List.filterMap_append, howners, hparked]
  simp [Stand.orders]

theorem Tidy.entered (h : Tidy ⟨r, false, [], [], false⟩) : Entered r where
  distinct := ids_held r ▸ h.distinct
  lt_nextEntry := by
    rw [ids_held]
    simpa using h.below

theorem gives_eq (r : Retry κ) (e : Event κ) :
    r.gives e = (Incident.event e).labels r.nextEntry := by
  cases e <;> rfl

theorem custody_happen {why : ClientError → Prop} (hsound : Sound why r) (hentered : Entered r)
    (i : Incident κ) (hwhy : ∀ reason, i = .event (.signal (.closed reason)) → why reason) :
    Custody why r (i.labels r.nextEntry) (r.happen i).1 (r.happen i).2 := by
  have habsorb := custody_absorb hsound (settles_meets hsound.numbered i) (ends_meets i hwhy) nofun
  cases i with
  | event e =>
    rw [← gives_eq]
    exact custody_step hsound hentered e fun reason he => hwhy reason (congrArg Incident.event he)
  | _ => exact habsorb

theorem between_happen (h : Between os log r) (horders : i.orders r.nextEntry ⊆ os) :
    Between os (log ++ r.learned i) (r.happen i).1 := by
  obtain ⟨after, hparts⟩ := parts_happen r false i
  have htidy := hparts.tidy h.tidy
  have hpunctual := hparts.punctual horders h.tidy h.punctual
  exact
    { sound := (custody_happen h.sound h.tidy.entered i fun _ _ => trivial).sound
      tidy := { htidy with }
      punctual := { hpunctual with } }

theorem between_undergo (h : Between os log r) (horders : r.ordered is ⊆ os) :
    Between os (log ++ r.record is) (r.undergo is) ∧
      Custody (fun _ => True) r (r.labelled is) (r.undergo is) (r.tell is) := by
  induction is generalizing r log with
  | nil => exact ⟨by simpa [record, undergo] using h, .refl h.sound⟩
  | cons i is ih =>
    obtain ⟨hfirst, hrest⟩ := List.append_subset.1 horders
    obtain ⟨hlast, hcustody⟩ := ih (between_happen h hfirst) hrest
    rw [record, ← List.append_assoc]
    exact ⟨hlast, (custody_happen h.sound h.tidy.entered i fun _ _ => trivial).andThen hcustody⟩

theorem undergo_append (r : Retry κ) (is later : List (Incident κ)) :
    r.undergo (is ++ later) = (r.undergo is).undergo later := by
  induction is generalizing r with
  | nil => rfl
  | cons i is ih => exact ih _

theorem ordered_append (r : Retry κ) (is later : List (Incident κ)) :
    r.ordered (is ++ later) = r.ordered is ++ (r.undergo is).ordered later := by
  induction is generalizing r with
  | nil => rfl
  | cons i is ih => rw [List.cons_append, ordered, ih, ordered, undergo, List.append_assoc]

theorem labelled_append (r : Retry κ) (is later : List (Incident κ)) :
    r.labelled (is ++ later) = r.labelled is ++ (r.undergo is).labelled later := by
  induction is generalizing r with
  | nil => rfl
  | cons i is ih => rw [List.cons_append, labelled, ih, labelled, undergo, List.append_assoc]

theorem mem_labelled (ho : o ∈ r.ordered is) : (some o.id, o.tag) ∈ r.labelled is := by
  induction is generalizing r with
  | nil => cases ho
  | cons i is ih =>
    rw [labelled, List.mem_append]
    refine (List.mem_append.1 ho).imp (fun hfirst => ?_) ih
    exact List.mem_append_left _ (List.mem_map.2 ⟨o, hfirst, rfl⟩)

theorem nextEntry_happen (h : Between os log r) (i : Incident κ) (ho : o ∈ i.orders r.nextEntry) :
    r.nextEntry < (r.happen i).1.nextEntry := by
  unfold Incident.orders at ho
  split at ho
  · exact (custody_execute h.sound ..).nextEntry
  · cases ho

theorem ordered_distinct (h : Between os log r) (horders : r.ordered is ⊆ os) :
    ((r.ordered is).map Order.id).Nodup ∧ ∀ o ∈ r.ordered is, r.nextEntry ≤ o.id := by
  induction is generalizing r log with
  | nil => exact ⟨.nil, nofun⟩
  | cons i is ih =>
    obtain ⟨hfirst, hrest⟩ := List.append_subset.1 horders
    obtain ⟨hdistinct, hfresh⟩ := ih (between_happen h hfirst) hrest
    have hnext := (custody_happen h.sound h.tidy.entered i fun _ _ => trivial).nextEntry
    refine ⟨?_, fun o ho => ?_⟩
    · rw [ordered, List.map_append]
      refine List.Nodup.append ?_ hdistinct ?_
      · unfold Incident.orders
        split <;> simp
      · intro id hid hlater
        obtain ⟨o, ho, rfl⟩ := List.mem_map.1 hid
        obtain ⟨other, hother, hsame⟩ := List.mem_map.1 hlater
        have hlt := nextEntry_happen h i ho
        have hge := hfresh other hother
        rw [id_of_mem_orders ho] at hsame
        omega
    · rcases List.mem_append.1 ho with ho | ho
      · exact Nat.le_of_eq (id_of_mem_orders ho).symm
      · exact Nat.le_trans hnext (hfresh o ho)

theorem Timely.split (h : r.Timely t (is ++ later)) :
    r.Timely t is ∧ t ≤ clock t is ∧ (r.undergo is).Timely (clock t is) later := by
  induction is generalizing r t with
  | nil => exact ⟨trivial, Nat.le_refl t, h⟩
  | cons i is ih =>
    obtain ⟨hclock, hdue, hrest⟩ := h
    obtain ⟨hfirst, hnow, hlater⟩ := ih hrest
    exact ⟨⟨hclock, hdue, hfirst⟩, Nat.le_trans hclock hnow, hlater⟩

theorem Timely.le (h : r.Timely t is) : ∀ i ∈ is, ∀ now, i.now? = some now → t ≤ now := by
  induction is generalizing r t with
  | nil => simp
  | cons i is ih =>
    obtain ⟨hclock, -, hrest⟩ := h
    refine List.forall_mem_cons.2 ⟨fun now hnow => by simpa [hnow] using hclock, ?_⟩
    exact fun j hj now hnow => Nat.le_trans hclock (ih hrest j hj now hnow)

theorem passed_undergo (h : Between os log r) (horders : r.ordered is ⊆ os)
    (ht : ∀ i ∈ is, ∀ now, i.now? = some now → t ≤ now)
    (hpassed : Passed t ⟨r, false, [], [], false⟩) :
    Passed t ⟨r.undergo is, false, [], [], false⟩ ∧
      ((∀ e ∈ r.parked, ∀ time, e.deadline = some time → t < time) →
        ∀ e ∈ (r.undergo is).parked, ∀ time, e.deadline = some time → t < time) := by
  induction is generalizing r log with
  | nil => exact ⟨hpassed, id⟩
  | cons i is ih =>
    obtain ⟨hfirst, hrest⟩ := List.append_subset.1 horders
    obtain ⟨hnow, hlater⟩ := List.forall_mem_cons.1 ht
    obtain ⟨after, hparts⟩ := parts_happen r false i
    obtain ⟨hlast, hparked⟩ :=
      ih (between_happen h hfirst) hrest hlater (hparts.passed h.tidy hnow hpassed)
    exact ⟨hlast, fun hbefore => hparked (hparts.served h.tidy hnow hpassed hbefore)⟩

theorem clock_concat (t : Nat) (is : List (Incident κ)) (i : Incident κ) :
    clock t (is ++ [i]) = i.now?.getD (clock t is) := by
  induction is generalizing t with
  | nil => rfl
  | cons j is ih => exact ih _

theorem sound_undergo {why : ClientError → Prop} (h : Between os log r) (hsound : Sound why r)
    (horders : r.ordered is ⊆ os)
    (hwhy : ∀ reason, .event (.signal (.closed reason)) ∈ is → why reason) :
    Sound why (r.undergo is) := by
  induction is generalizing r log with
  | nil => exact hsound
  | cons i is ih =>
    obtain ⟨hfirst, hrest⟩ := List.append_subset.1 horders
    have hcustody := custody_happen hsound h.tidy.entered i fun reason hi =>
      hwhy reason (hi ▸ List.mem_cons_self)
    exact ih (between_happen h hfirst) hcustody.sound hrest
      fun reason hmem => hwhy reason (List.mem_cons_of_mem i hmem)

theorem terminal_undergo (h : (r.undergo is).pipeline.cell.terminal = some overtime) :
    r.pipeline.cell.terminal = some overtime ∨ ∃ i ∈ is, i.Breaks overtime := by
  induction is generalizing r with
  | nil => exact .inl h
  | cons i is ih =>
    rcases ih h with hmid | ⟨j, hj, hbreaks⟩
    · obtain ⟨after, hparts⟩ := parts_happen r false i
      exact (hparts.terminal hmid).imp_right fun hbreaks => ⟨i, List.mem_cons_self, hbreaks⟩
    · exact .inr ⟨j, List.mem_cons_of_mem i hj, hbreaks⟩

theorem mem_tell {x : κ × Outcome} (h : x ∈ (r.tell is).outcomes) :
    ∃ before i later, is = before ++ i :: later ∧
      x ∈ ((r.undergo before).happen i).2.outcomes := by
  induction is generalizing r with
  | nil => simp [tell] at h
  | cons i is ih =>
    rw [tell, Report.outcomes_andThen, List.mem_append] at h
    rcases h with hfirst | hrest
    · exact ⟨[], i, is, rfl, hfirst⟩
    · obtain ⟨before, j, later, rfl, hmem⟩ := ih hrest
      exact ⟨i :: before, j, later, rfl, hmem⟩

theorem mem_labelled_plain {tag : κ} (hi : i ∈ is) (htag : tag ∈ i.plains) :
    (none, tag) ∈ r.labelled is := by
  induction is generalizing r with
  | nil => cases hi
  | cons j is ih =>
    rw [labelled, List.mem_append]
    rcases List.mem_cons.1 hi with rfl | hi
    · exact .inl (List.mem_append_right _ (List.mem_map.2 ⟨tag, htag, rfl⟩))
    · exact .inr (ih hi)

/-- Once the clock of the pipeline and then that of the retries has shown at least `t`, nothing is
in flight or parked whose time was over at `t`. -/
theorem passed_clocks {between after : List (Incident κ)} {now : Nat} (h : Between os log r)
    (horders : r.ordered (.event (.signal (.clock t)) :: (between ++ .event (.clock now) :: after))
      ⊆ os)
    (ht : ∀ i ∈ between ++ .event (.clock now) :: after, ∀ time, i.now? = some time → t ≤ time) :
    let last := r.undergo (.event (.signal (.clock t)) :: (between ++ .event (.clock now) :: after))
    Passed t ⟨last, false, [], [], false⟩ ∧
      ∀ e ∈ last.parked, ∀ time, e.deadline = some time → t < time := by
  intro last
  obtain ⟨hfirst, hrest⟩ := List.append_subset.1 horders
  rw [ordered_append, List.append_subset] at hrest
  obtain ⟨hbetween, hafter⟩ := hrest
  obtain ⟨htick, hafter⟩ := List.append_subset.1 hafter
  have hnow : t ≤ now := ht (.event (.clock now)) (by simp) now rfl
  have hclock := between_happen h hfirst
  have hwaiting := (between_undergo hclock hbetween).1
  have hserved := between_happen hwaiting htick
  have hpassed : Passed t ⟨(r.happen (.event (.signal (.clock t)))).1, false, [], [], false⟩ :=
    passed_clock h.punctual t
  obtain ⟨hflying, -⟩ :=
    passed_undergo hclock hbetween (fun i hi => ht i (List.mem_append_left _ hi)) hpassed
  obtain ⟨after', hparts⟩ :=
    parts_happen ((r.happen (.event (.signal (.clock t)))).1.undergo between) false
      (.event (.clock now))
  have hticked := hparts.passed (t := t) hwaiting.tidy (by
    rintro time htime
    cases htime
    exact hnow) hflying
  obtain ⟨hlast, hparked⟩ := passed_undergo hserved hafter
    (fun i hi => ht i (List.mem_append_right _ (List.mem_cons_of_mem _ hi))) hticked
  have hsame : last = ((((r.happen (.event (.signal (.clock t)))).1.undergo between).happen
      (.event (.clock now))).1.undergo after) := by
    simp only [last, undergo, undergo_append]
  rw [hsame]
  refine ⟨hlast, hparked fun e he time htime => ?_⟩
  exact Nat.lt_of_le_of_lt hnow (served_tick hwaiting.punctual now e he time htime)

theorem Between.mem_orders (h : Between os log r) (hdistinct : (os.map Order.id).Nodup)
    (ho : o ∈ os) (hheld : (some o.id, o.tag) ∈ r.held) :
    o ∈ Stand.orders ⟨r, false, [], [], false⟩ := by
  have hid : o.id ∈ ids r.held := List.mem_filterMap.2 ⟨_, hheld, rfl⟩
  rw [ids_held] at hid
  obtain ⟨other, hother, hsame⟩ := List.mem_map.1 hid
  obtain rfl : other = o :=
    List.inj_on_of_nodup_map hdistinct (h.punctual.known hother) ho hsame
  exact hother

variable [DecidableEq κ]

/-- An operation is neither in flight nor parked, and its submitter was told. Where the submitters
differ each one was told once. -/
structure Delivered (new : List (Label κ)) (r : Retry κ) (report : Report κ) (o : Order κ) :
    Prop where
  left : (some o.id, o.tag) ∉ r.held
  told : ∃ outcome, (o.tag, outcome) ∈ report.outcomes
  once : (new.map Prod.snd).Nodup → ∃ outcome, whereabouts r report o.id o.tag = (0, 0, [outcome])

theorem delivered_of_left {new : List (Label κ)} {report : Report κ}
    (h : Accounts [] new report.tags r.held) (ho : (some o.id, o.tag) ∈ new)
    (hleft : (some o.id, o.tag) ∉ r.held) : Delivered new r report o where
  left := hleft
  told := by
    obtain ⟨told, htags, hperm⟩ := h
    have hmem := hperm.symm.subset ho
    have htold := (List.mem_append.1 hmem).resolve_right hleft
    have htag : o.tag ∈ report.tags := htags ▸ List.mem_map_of_mem (f := Prod.snd) htold
    obtain ⟨⟨_, outcome⟩, houtcome, rfl⟩ := List.mem_map.1 htag
    exact ⟨outcome, houtcome⟩
  once := by
    intro hnew
    have hnone := List.count_eq_zero_of_not_mem hleft
    rw [held, List.count_append] at hnone
    rcases onePlace_of_accounts h hnew ho with hflying | hparked | hended
    · simp only [whereabouts, Prod.mk.injEq] at hflying
      omega
    · simp only [whereabouts, Prod.mk.injEq] at hparked
      omega
    · exact hended

def Incident.Brings (i : Incident κ) (e : ClientError) : Prop :=
  i.Breaks e ∨ i.Drops e ∨ (∃ id, i = .ended id (.error e)) ∨
    ∃ event, i = .event event ∧ event.missed? = some e

/-- Behind `before`, an error that says that the time is over is the matter of one operation in `i`:
everything is closed for it; the operation's connection breaks with it, or its try comes back with
it; it is sent while there is no connection, since one has broken with it; or it waits for the
catalog, which could not be read in time. -/
inductive Blamed (start : Retry κ) (before : List (Incident κ)) (i : Incident κ) (o : Order κ) :
    Prop where
  | closed (h : .event (.signal (.closed overtime)) ∈ before ++ [i])
  | dropped {e : Entry κ} (ho : e.order = o) (h : i.Drops overtime)
      (he : .entry e ∈ owners (start.undergo before).pipeline)
  | ended {id : Nat} {op : Operation (Owner κ)} {e : Entry κ} (ho : e.order = o)
      (h : i = .ended id (.error overtime))
      (hop : (start.undergo before).pipeline.operation? id = some op) (he : op.tag = .entry e)
  | met {j : Incident κ} {now : Nat} {fault : Option String} {s : Submission (Owner κ)}
      {e : Entry κ} (ho : e.order = o) (hj : j ∈ before) (h : j.Breaks overtime)
      (hleft : (start.undergo before).pipeline.cell.terminal = some overtime)
      (hs : .submitted now fault s ∈ (start.undergo before).learned i) (he : s.tag = .entry e)
  | unread {event : Event κ} {e : Entry κ} (ho : e.order = o) (hi : i = .event event)
      (h : event.missed? = some overtime) (he : e ∈ (start.undergo before).parked)
      (hwaiting : isWaiting e = true)

omit [DecidableEq κ] in
theorem Blamed.brought {start : Retry κ} {before : List (Incident κ)}
    (h : start.Blamed before i o) : ∃ j ∈ before ++ [i], j.Brings overtime := by
  cases h with
  | closed h => exact ⟨_, h, .inl rfl⟩
  | dropped _ h _ => exact ⟨i, by simp, .inr (.inl h)⟩
  | ended _ h _ _ => exact ⟨i, by simp, .inr (.inr (.inl ⟨_, h⟩))⟩
  | met _ hj h _ _ _ => exact ⟨_, List.mem_append_left _ hj, .inl h⟩
  | unread _ hi h _ _ => exact ⟨i, by simp, .inr (.inr (.inr ⟨_, hi, h⟩))⟩

omit [DecidableEq κ] in
theorem blaming_undergo (settings : PipelineSettings) (catalog : Option Catalog.Cache)
    (refreshes : Bool) (before : List (Incident κ)) (i : Incident κ) :
    Blaming ((create settings catalog refreshes).undergo before) i
      ((create settings catalog refreshes).Blamed before i) where
  closed := by
    rintro (hclosed | rfl) o
    · have hsound : Sound (fun e => .event (.signal (.closed e)) ∈ before)
          ((create settings catalog refreshes).undergo before) :=
        sound_undergo (between_create settings catalog refreshes)
          (sound_create settings catalog refreshes) (List.Subset.refl _) fun _ hmem => hmem
      exact .closed (List.mem_append_left _ (hsound.kept.closed overtime hclosed).1)
    · exact .closed (by simp)
  dropped h e he := .dropped rfl h he
  ended id op e h hop he := .ended rfl h hop he
  unread event hi h e he hwaiting := .unread rfl hi h he hwaiting
  met hleft now fault s e hs he := by
    rcases terminal_undergo hleft with hnone | ⟨j, hj, hbreaks⟩
    · simp [create, Pipeline.create, Lifecycle.Cell.initial] at hnone
    · exact .met rfl hj hbreaks hleft hs he

/-- How the deadlines of operations are kept from `start` on. -/
structure Bounded (start : Retry κ) (incidents : List (Incident κ)) : Prop where
  submitted : ∀ now fault s e, .submitted now fault s ∈ start.record incidents → s.tag = .entry e →
    e.order ∈ start.ordered incidents ∧ OnTime now e s
  flying : ∀ id op e, (id, op) ∈ (start.undergo incidents).pipeline.pending → op.tag = .entry e →
    e.order ∈ start.ordered incidents ∧ op.deadline = e.deadline
  parked : (start.undergo incidents).pipeline.state ≠ .closed →
    ∀ e ∈ (start.undergo incidents).parked, e.order ∈ start.ordered incidents ∧
      ∀ time, e.deadline = some time →
        ⟨time, e.id⟩ ∈ (start.undergo incidents).deadlines.entries
  delivered : ∀ before between after now later,
    incidents = before ++ .event (.signal (.clock now)) ::
      (between ++ .event (.clock later) :: after) →
    ∀ o ∈ start.ordered before, ∀ time, o.deadline = some time → time ≤ now →
      Delivered (start.labelled incidents) (start.undergo incidents) (start.tell incidents) o
  late : ((start.labelled incidents).map Prod.snd).Nodup →
    ∀ before i later, incidents = before ++ i :: later → ∀ o ∈ start.ordered incidents,
      (o.tag, .error overtime) ∈ ((start.undergo before).happen i).2.outcomes →
      start.Blamed before i o ∨ ∃ time, o.deadline = some time ∧ time ≤ clock 0 (before ++ [i])

theorem Bounded.untold {start : Retry κ} (h : start.Bounded is)
    (hnew : ((start.labelled is).map Prod.snd).Nodup) (hbrings : ∀ i ∈ is, ¬ i.Brings overtime)
    (ho : o ∈ start.ordered is) (hnone : o.deadline = none) :
    (o.tag, .error overtime) ∉ (start.tell is).outcomes := by
  intro htold
  obtain ⟨before, i, later, rfl, hthere⟩ := mem_tell htold
  rcases h.late hnew before i later rfl o ho hthere with hblamed | ⟨time, htime, -⟩
  · obtain ⟨j, hj, hbrought⟩ := hblamed.brought
    exact hbrings j (by simp at hj ⊢; tauto) hbrought
  · simp [hnone] at htime

theorem delivered_of_due {start : Retry κ} {incidents before between after : List (Incident κ)}
    {now later time : Nat} (hstart : Between (start.ordered incidents) [] start)
    (hnone : start.held = []) (htimely : start.Timely 0 incidents)
    (hsplit : incidents = before ++ .event (.signal (.clock now)) ::
      (between ++ .event (.clock later) :: after))
    (ho : o ∈ start.ordered before) (htime : o.deadline = some time) (hdue : time ≤ now) :
    Delivered (start.labelled incidents) (start.undergo incidents) (start.tell incidents) o := by
  obtain ⟨hlast, hcustody⟩ := between_undergo hstart (List.Subset.refl _)
  obtain ⟨hdistinct, -⟩ := ordered_distinct hstart (List.Subset.refl _)
  have haccounts := hcustody.accounts
  rw [hnone] at haccounts
  have horders := congrArg start.ordered hsplit
  rw [ordered_append] at horders
  have hknown : o ∈ start.ordered incidents := horders ▸ List.mem_append_left _ ho
  refine delivered_of_left haccounts (mem_labelled hknown) fun hheld => ?_
  obtain ⟨hbefore, hafter⟩ := List.append_subset.1 (fun x hx => horders ▸ hx)
  obtain ⟨-, -, -, -, hrest⟩ := Timely.split (hsplit ▸ htimely)
  obtain ⟨hflying, hparked⟩ := passed_clocks (between_undergo hstart hbefore).1 hafter hrest.le
  rw [← undergo_append, ← hsplit] at hflying hparked
  have hplace := hlast.mem_orders hdistinct hknown hheld
  simp only [Stand.orders, returned_nil, ordersOf_nil, List.map_nil, List.append_nil,
    List.mem_append, mem_ordersOf, List.mem_map] at hplace
  rcases hplace with ⟨e, he, rfl⟩ | ⟨e, he, rfl⟩
  · have hlater := hflying (.entry e) (List.mem_append_left _ he) e rfl time htime
    omega
  · have hlater := hparked e he time htime
    omega

omit [DecidableEq κ] in
/-- The labels tell the operations apart, so that the one that is told is the one with an excuse. -/
theorem blamed_of_told (settings : PipelineSettings) (catalog : Option Catalog.Cache)
    (refreshes : Bool) {before later : List (Incident κ)} {i : Incident κ} :
    let start : Retry κ := create settings catalog refreshes
    start.Timely 0 (before ++ i :: later) →
      ((start.labelled (before ++ i :: later)).map Prod.snd).Nodup →
      o ∈ start.ordered (before ++ i :: later) →
      (o.tag, .error overtime) ∈ ((start.undergo before).happen i).2.outcomes →
      start.Blamed before i o ∨
        ∃ time, o.deadline = some time ∧ time ≤ clock 0 (before ++ [i]) := by
  intro start htimely hnew ho htold
  have hstart : Between (start.ordered (before ++ i :: later)) [] start :=
    between_create settings catalog refreshes
  obtain ⟨hdistinct, -⟩ := ordered_distinct hstart (List.Subset.refl _)
  have horders := ordered_append start before (i :: later)
  have hbefore : start.ordered before ⊆ start.ordered (before ++ i :: later) := by
    simp [horders]
  have hnext : i.orders (start.undergo before).nextEntry ⊆
      start.ordered (before ++ i :: later) := by simp [horders, ordered]
  obtain ⟨hbetween, hkept⟩ := between_undergo hstart hbefore
  obtain ⟨-, -, -, hdue, -⟩ := Timely.split htimely
  rw [← clock_concat] at hdue
  have hplain : ∀ tag, .plain tag ∈ owners (start.undergo before).pipeline →
      (none, tag) ∈ start.labelled (before ++ i :: later) := by
    intro tag htag
    rw [labelled_append]
    refine List.mem_append_left _ (hkept.accounts.subset ?_)
    exact List.mem_append_left _ (List.mem_map_of_mem (f := Owner.label) htag)
  have hexcused := (blaming_undergo settings catalog refreshes before i).excused_happen hplain
    (fun tag htag => mem_labelled_plain (by simp) htag)
    (by rintro now hnow; simp [clock_concat, hnow]) hdue hdistinct hnext hbetween.tidy
    hbetween.punctual
  have hlabel := mem_labelled ho
  rcases hexcused o.tag htold with hplain | ⟨other, hother, hsame, hwhy⟩
  · cases List.inj_on_of_nodup_map hnew hlabel hplain rfl
  · have heq := List.inj_on_of_nodup_map hnew hlabel (mem_labelled hother) hsame.symm
    have hid : o.id = other.id := Option.some.inj (congrArg Prod.fst heq)
    obtain rfl := List.inj_on_of_nodup_map hdistinct ho hother hid
    exact hwhy

/-- In every run over a clock that never goes back, an operation is handed to the pipeline only
before its deadline and with the time that is left, so that the pipeline has it under the same
deadline; while it is parked the timer of the retries holds that deadline; and once the clock of the
pipeline and then that of the retries has reached it the submitter was told. Nobody is told that the
time is over before the deadline, or without one, unless that error itself was brought in and was
the matter of the operation. -/
theorem bounded_by_one_deadline (settings : PipelineSettings) (catalog : Option Catalog.Cache)
    (refreshes : Bool) (incidents : List (Incident κ))
    (htimely : (create settings catalog refreshes : Retry κ).Timely 0 incidents) :
    Bounded (create settings catalog refreshes) incidents := by
  let start : Retry κ := create settings catalog refreshes
  have hstart : Between (start.ordered incidents) [] start :=
    between_create settings catalog refreshes
  obtain ⟨hlast, -⟩ := between_undergo hstart (List.Subset.refl _)
  exact
    { submitted := hlast.punctual.submitted
      flying := by
        intro id op e hop htag
        refine ⟨hlast.punctual.known ?_, hlast.punctual.flying id op e hop htag⟩
        have howner : e.order ∈ ordersOf (owners (start.undergo incidents).pipeline) :=
          mem_ordersOf.2 ⟨e, mem_owners.2 ⟨id, op, hop, htag⟩, rfl⟩
        simp [Stand.orders, howner]
      parked := by
        intro hopen e he
        have hclosed : (start.undergo incidents).closed = none := by
          by_contra hclosed
          exact hopen (hlast.sound.closed.1 (Option.isSome_iff_ne_none.2 hclosed))
        refine ⟨hlast.punctual.known ?_, (hlast.punctual.scheduled hclosed).2 e he⟩
        have hparked : e.order ∈ (start.undergo incidents).parked.map Entry.order :=
          List.mem_map_of_mem he
        simp [Stand.orders, hparked]
      delivered := by
        intro before between after now later hsplit o ho time htime hdue
        exact delivered_of_due hstart rfl htimely hsplit ho htime hdue
      late := by
        rintro hnew before i later rfl o ho htold
        exact blamed_of_told settings catalog refreshes htimely hnew ho htold }

/-- A connection is lost with two operations on it, of which one has a deadline, and its timers go
on while there is no other one. -/
theorem bounded_by_one_deadline_of_loss :
    let before : List (Incident Nat) :=
      [.event (.signal .supervised), .event (.signal .seeking), .event (.signal .begun),
        .event (.signal (.attached 1 "a:1" [] none)), .event (.signal (.started 1 .writer)),
        .event (.signal (.started 1 .reader)), .event (.execute 3 none .ping (some 40) 7),
        .event (.execute 4 none .ping none 8), .lost 1 .endOfInput]
    let between : List (Incident Nat) :=
      [.ended 1 (.error .endOfInput), .ended 2 (.error .endOfInput)]
    let incidents := before ++ .event (.signal (.clock 43)) :: (between ++ [.event (.clock 50)])
    let start : Retry Nat := create ⟨none, 1000, 1024, Settings.half, 1024⟩ none false
    start.Timely 0 incidents ∧
      Delivered (start.labelled incidents) (start.undergo incidents) (start.tell incidents)
        ⟨1, 7, some 43⟩ ∧
      (8, .error overtime) ∉ (start.tell incidents).outcomes := by
  intro before between incidents start
  have htimely : start.Timely 0 incidents := by
    simp [incidents, before, between, Timely, Incident.Due, Incident.now?, Event.now?]
  have hbounded : start.Bounded incidents :=
    bounded_by_one_deadline ⟨none, 1000, 1024, Settings.half, 1024⟩ none false incidents htimely
  have hordered : start.ordered before = [⟨1, 7, some 43⟩, ⟨2, 8, none⟩] := by
    decide +kernel
  have hknown : (⟨2, 8, none⟩ : Order Nat) ∈ start.ordered incidents := by
    rw [ordered_append, hordered]
    simp
  refine ⟨htimely, ?_, fun htold => ?_⟩
  · exact hbounded.delivered before between [] 43 50 rfl _ (by simp [hordered]) 43 rfl (by simp)
  · have hlabels : start.labelled incidents = [(some 1, 7), (some 2, 8)] := by decide +kernel
    have hnone : ∀ i ∈ incidents, ¬ i.Brings overtime := by
      simp [incidents, before, between, Incident.Brings, Incident.Drops, Incident.Breaks,
        Event.missed?, ClientError.endOfInput]
    exact hbounded.untold (by simp [hlabels]) hnone hknown rfl htold

/-- Nobody has to wait for a deadline to be told that the time is over: an operation without one is
parked, and the client is closed for that reason. -/
theorem not_forall_untimed :
    let incidents : List (Incident Nat) :=
      [.event (.execute 0 none .ping none 7), .event (.signal (.closed overtime))]
    let start : Retry Nat := create ⟨none, 1000, 1024, Settings.half, 1024⟩ none false
    start.Timely 0 incidents ∧ start.ordered incidents = [⟨1, 7, none⟩] ∧
      start.labelled incidents = [(some 1, 7)] ∧
      (7, .error overtime) ∈ (start.tell incidents).outcomes := by
  intro incidents start
  refine ⟨?_, rfl, rfl, ?_⟩
  · simp [incidents, Timely, Incident.Due, Incident.now?, Event.now?]
  · have htold : (start.tell incidents).outcomes = [(7, .error overtime)] := rfl
    simp [htold]

end TupleClient.Retry
