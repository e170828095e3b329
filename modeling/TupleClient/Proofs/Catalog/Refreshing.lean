import Mathlib.Data.List.Basic
import TupleClient.Catalog.Refresh

/-!
Any number of refreshes of one cache, with a server that answers them as it likes. Each one reads
both parts of the catalog until they agree, and what the cache holds is always a catalog that the
server had at some version, never an older one than before.
-/
namespace TupleClient.Catalog

open Refresh (versionOf)

abbrev Answer := Except ClientError Response

/-- How a refresh stands: it reads, or has found a snapshot or an error, or has returned with it. -/
inductive Standing where
  | reading (r : Refresh)
  | found (result : Except ClientError Snapshot)
  | returned (result : Except ClientError Snapshot) (version : Except ClientError Nat)

structure Ongoing where
  reads : List (View × Answer)
  standing : Standing

/-- A cache and its refreshes, in the order in which they were begun. -/
structure Refreshing where
  cache : Cache
  refreshes : List Ongoing

inductive Refreshing.Event where
  | begun
  | answered (i : Nat) (answer : Answer)
  | returned (i : Nat)

namespace Refreshing

def create (attempts : Nat) : Refreshing := ⟨.create attempts, []⟩

def step (s : Refreshing) : Event → Refreshing
  | .begun => { s with refreshes := s.refreshes ++ [⟨[], .reading (.start s.cache)⟩] }
  | .answered i answer =>
    match s.refreshes[i]? with
    | some ⟨reads, .reading r⟩ =>
      let standing : Standing :=
        match r.answered answer with
        | .inl next => .reading next
        | .inr result => .found result
      { s with refreshes := s.refreshes.set i ⟨reads ++ [(r.view, answer)], standing⟩ }
    | _ => s
  | .returned i =>
    match s.refreshes[i]? with
    | some ⟨reads, .found result⟩ =>
      let (cache, version) := s.cache.refreshed result
      ⟨cache, s.refreshes.set i ⟨reads, .returned result version⟩⟩
    | _ => s

def run (s : Refreshing) : List Event → Refreshing
  | [] => s
  | e :: es => (s.step e).run es

end Refreshing

/-- All reads of a refresh that may make `n` pairs of them, and what it finds. It goes on after a
pair that does not agree, and only then. -/
inductive Course (limit : Nat) :
    (n : Nat) → List (View × Answer) → Except ClientError Snapshot → Prop where
  | noSpaces {n : Nat} {e : ClientError} : Course limit (n + 1) [(.spaces, .error e)] (.error e)
  | noIndexes {n : Nat} {spaces : Response} {e : ClientError} :
      Course limit (n + 1) [(.spaces, .ok spaces), (.indexes, .error e)] (.error e)
  | agreed {n : Nat} {spaces indexes : Response} (h : versionOf spaces = versionOf indexes) :
      Course limit (n + 1) [(.spaces, .ok spaces), (.indexes, .ok indexes)]
        ((Refresh.join spaces indexes).mapError .codec)
  | again {n : Nat} {spaces indexes : Response} {reads : List (View × Answer)}
      {result : Except ClientError Snapshot} (h : versionOf spaces ≠ versionOf indexes)
      (hrest : Course limit n reads result) :
      Course limit (n + 1) ((.spaces, .ok spaces) :: (.indexes, .ok indexes) :: reads) result
  | exhausted : Course limit 0 [] (.error (.schema (.inconsistent limit)))

/-- The reads so far of a refresh that may make `n` pairs of them: how many pairs are left, and what
it has of the present one. -/
inductive Underway : (n : Nat) → List (View × Answer) → (left : Nat) → Option Response → Prop where
  | pair {n : Nat} : Underway (n + 1) [] (n + 1) none
  | half {n : Nat} {spaces : Response} :
      Underway (n + 1) [(.spaces, .ok spaces)] (n + 1) (some spaces)
  | again {n left : Nat} {spaces indexes : Response} {reads : List (View × Answer)}
      {half : Option Response} (h : versionOf spaces ≠ versionOf indexes)
      (hrest : Underway n reads left half) :
      Underway (n + 1) ((.spaces, .ok spaces) :: (.indexes, .ok indexes) :: reads) left half

def halfReads : Option Response → List (View × Answer)
  | none => []
  | some spaces => [(.spaces, .ok spaces)]

variable {limit n left : Nat} {reads more : List (View × Answer)} {half : Option Response}

theorem Underway.exists_left (h : Underway n reads left half) : ∃ k, left = k + 1 := by
  induction h with
  | pair => exact ⟨_, rfl⟩
  | half => exact ⟨_, rfl⟩
  | again _ _ ih => exact ih

/-- There is always a read to come, so that the reads come to an end. -/
theorem Underway.length_lt (h : Underway n reads left half) : reads.length < 2 * n := by
  induction h with
  | pair => simp
  | half =>
    simp only [List.length_cons, List.length_nil]
    omega
  | again _ _ ih =>
    simp only [List.length_cons]
    omega

theorem Course.length_le {result : Except ClientError Snapshot} (h : Course limit n reads result) :
    reads.length ≤ 2 * n := by
  induction h with
  | noSpaces =>
    rw [List.length_singleton]
    omega
  | noIndexes =>
    simp only [List.length_cons, List.length_nil]
    omega
  | agreed =>
    simp only [List.length_cons, List.length_nil]
    omega
  | again _ _ ih =>
    simp only [List.length_cons]
    omega
  | exhausted => exact Nat.le_refl _

/-- Only the pairs left and what was read of the present one matter for how the course ends. -/
theorem Underway.course (h : Underway n reads left half) {result : Except ClientError Snapshot}
    (hmore : Course limit left (halfReads half ++ more) result) :
    Course limit n (reads ++ more) result := by
  induction h with
  | pair => exact hmore
  | half => exact hmore
  | again hne _ ih => exact .again hne (ih hmore)

theorem Underway.trans (h : Underway n reads left half) {left' : Nat} {half' : Option Response}
    (hmore : Underway left (halfReads half ++ more) left' half') :
    Underway n (reads ++ more) left' half' := by
  induction h with
  | pair => exact hmore
  | half => exact hmore
  | again hne _ ih => exact .again hne (ih hmore)

def Ongoing.Follows (limit : Nat) (o : Ongoing) : Prop :=
  match o.standing with
  | .reading r => r.limit = limit ∧ Underway limit o.reads r.left r.spaces
  | .found result => Course limit limit o.reads result
  | .returned result _ => Course limit limit o.reads result

theorem Ongoing.Follows.length_le {o : Ongoing} (h : o.Follows limit) :
    o.reads.length ≤ 2 * limit := by
  rw [Ongoing.Follows] at h
  split at h
  case h_1 => exact Nat.le_of_lt h.2.length_lt
  case h_2 => exact h.length_le
  case h_3 => exact h.length_le

theorem follows_start {c : Cache} (hpos : 0 < limit) (hlimit : c.attempts = limit) :
    Ongoing.Follows limit ⟨[], .reading (.start c)⟩ := by
  obtain ⟨n, rfl⟩ : ∃ n, limit = n + 1 := ⟨limit - 1, by omega⟩
  refine ⟨hlimit, ?_⟩
  rw [Refresh.start, hlimit]
  exact .pair

theorem follows_answered {r : Refresh} (hlimit : r.limit = limit)
    (h : Underway limit reads r.left r.spaces) (answer : Answer) :
    Ongoing.Follows limit ⟨reads ++ [(r.view, answer)],
      match r.answered answer with
      | .inl next => .reading next
      | .inr result => .found result⟩ := by
  obtain ⟨rlimit, left, spaces⟩ := r
  obtain ⟨k, rfl⟩ : ∃ k, left = k + 1 := h.exists_left
  obtain rfl : rlimit = limit := hlimit
  simp only [Refresh.answered, Refresh.view]
  cases spaces with
  | none =>
    cases answer with
    | error e => exact h.course .noSpaces
    | ok response => exact ⟨rfl, h.trans .half⟩
  | some spaces =>
    cases answer with
    | error e => exact h.course .noIndexes
    | ok response =>
      by_cases hagree : versionOf spaces = versionOf response
      · have hcourse : Course rlimit rlimit (reads ++ [(.indexes, .ok response)])
            ((Refresh.join spaces response).mapError .codec) := h.course (.agreed hagree)
        simp only [hagree, if_true]
        cases hjoin : Refresh.join spaces response with
        | ok s =>
          rw [hjoin] at hcourse
          exact hcourse
        | error e =>
          rw [hjoin] at hcourse
          exact hcourse
      · simp only [hagree, if_false]
        by_cases hlast : k + 1 ≤ 1
        · obtain rfl : k = 0 := by omega
          exact h.course (.again hagree .exhausted)
        · obtain ⟨j, rfl⟩ : ∃ j, k = j + 1 := ⟨k - 1, by omega⟩
          simp only [hlast, if_false]
          exact ⟨rfl, h.trans (.again hagree .pair)⟩

theorem Snapshot.addSpaces_version {s t : Snapshot} {indexes : List (Nat × Index)}
    {rows : List Value} (h : s.addSpaces indexes rows = .ok t) : t.version = s.version := by
  induction rows generalizing s indexes with
  | nil =>
    cases h
    rfl
  | cons row rows ih =>
    rw [Snapshot.addSpaces] at h
    cases hrow : Space.ofRow row with
    | error e =>
      rw [hrow] at h
      cases h
    | ok space =>
      rw [hrow] at h
      have hrest : (s.insert _).addSpaces _ rows = .ok t := h
      exact (ih hrest).trans rfl

theorem Snapshot.join_version {version : Nat} {spaces indexes : List Value} {s : Snapshot}
    (h : Snapshot.join version spaces indexes = .ok s) : s.version = version := by
  rw [Snapshot.join] at h
  cases hindexes : Snapshot.indexRows indexes with
  | error e =>
    rw [hindexes] at h
    cases h
  | ok rows =>
    rw [hindexes] at h
    exact Snapshot.addSpaces_version h

/-- The last two reads say the same version, and the snapshot joins all their rows at it. -/
def Agreed (reads : List (View × Answer)) (s : Snapshot) : Prop :=
  ∃ before spaces indexes spaceRows indexRows,
    reads = before ++ [(.spaces, .ok spaces), (.indexes, .ok indexes)] ∧
    versionOf spaces = s.version ∧ versionOf indexes = s.version ∧
    spaces.tuples = .ok spaceRows ∧ indexes.tuples = .ok indexRows ∧
    Snapshot.join s.version spaceRows indexRows = .ok s

theorem agreed_of_join {spaces indexes : Response} {s : Snapshot}
    (h : versionOf spaces = versionOf indexes) (hjoin : Refresh.join spaces indexes = .ok s) :
    Agreed [(.spaces, .ok spaces), (.indexes, .ok indexes)] s := by
  rw [Refresh.join] at hjoin
  cases hspaces : spaces.tuples with
  | error e =>
    rw [hspaces] at hjoin
    cases hjoin
  | ok spaceRows =>
    cases hindexes : indexes.tuples with
    | error e =>
      rw [hspaces, hindexes] at hjoin
      cases hjoin
    | ok indexRows =>
      rw [hspaces, hindexes] at hjoin
      have hversion : s.version = versionOf spaces := Snapshot.join_version hjoin
      exact ⟨[], spaces, indexes, spaceRows, indexRows, rfl, hversion.symm,
        h ▸ hversion.symm, hspaces, hindexes, hversion ▸ hjoin⟩

theorem Agreed.append {s : Snapshot} (h : Agreed reads s) (before : List (View × Answer)) :
    Agreed (before ++ reads) s := by
  obtain ⟨middle, spaces, indexes, spaceRows, indexRows, rfl, h⟩ := h
  exact ⟨before ++ middle, spaces, indexes, spaceRows, indexRows, (List.append_assoc ..).symm, h⟩

theorem Course.agreed_of_ok {s : Snapshot} (h : Course limit n reads (.ok s)) : Agreed reads s := by
  generalize hresult : Except.ok s = result at h
  induction h with
  | noSpaces => cases hresult
  | noIndexes => cases hresult
  | @agreed n spaces indexes h =>
    cases hjoin : Refresh.join spaces indexes with
    | error e =>
      rw [hjoin] at hresult
      cases hresult
    | ok t =>
      rw [hjoin] at hresult
      cases hresult
      exact agreed_of_join h hjoin
  | @again n spaces indexes reads result h hrest ih =>
    exact (ih hresult).append [(.spaces, .ok spaces), (.indexes, .ok indexes)]
  | exhausted => cases hresult

theorem Cache.install_attempts (c : Cache) (s : Snapshot) :
    (c.install s).attempts = c.attempts := by
  rw [Cache.install]
  split <;> rfl

theorem Cache.version_le_install (c : Cache) (s : Snapshot) :
    c.current.version ≤ (c.install s).current.version := by
  rw [Cache.install]
  split
  · assumption
  · exact Nat.le_refl _

namespace Refreshing

variable {s : Refreshing}

structure Sound (limit : Nat) (s : Refreshing) : Prop where
  positive : 0 < limit
  attempts : s.cache.attempts = limit
  follows : ∀ o ∈ s.refreshes, o.Follows limit
  current : s.cache.current = .empty ∨
    ∃ o ∈ s.refreshes, ∃ version, o.standing = .returned (.ok s.cache.current) version

theorem sound_create (attempts : Nat) : Sound (max attempts 1) (create attempts) :=
  ⟨Nat.lt_of_lt_of_le Nat.zero_lt_one (Nat.le_max_right ..), rfl,
    fun _ ho => absurd ho List.not_mem_nil, .inl rfl⟩

theorem Sound.agreed (h : Sound limit s) :
    s.cache.current = .empty ∨ ∃ o ∈ s.refreshes, Agreed o.reads s.cache.current := by
  refine h.current.imp_right fun ⟨o, ho, version, hstanding⟩ => ⟨o, ho, ?_⟩
  have hfollows := h.follows o ho
  rw [Ongoing.Follows, hstanding] at hfollows
  exact hfollows.agreed_of_ok

theorem Sound.goOn (h : Sound limit s) {i : Nat} {o o' : Ongoing} {cache : Cache}
    (hget : s.refreshes[i]? = some o)
    (hopen : ∀ result version, o.standing ≠ .returned result version)
    (hfollows : o'.Follows limit) (hattempts : cache.attempts = s.cache.attempts)
    (hcurrent : cache.current = s.cache.current ∨
      ∃ version, o'.standing = .returned (.ok cache.current) version) :
    Sound limit ⟨cache, s.refreshes.set i o'⟩ where
  positive := h.positive
  attempts := hattempts.trans h.attempts
  follows := by
    intro x hx
    rcases List.mem_or_eq_of_mem_set hx with hx | rfl
    · exact h.follows x hx
    · exact hfollows
  current := by
    obtain ⟨hi, -⟩ := List.getElem?_eq_some_iff.1 hget
    rcases hcurrent with hsame | hnew
    · rw [hsame]
      refine h.current.imp_right fun ⟨x, hx, version, hstanding⟩ => ⟨x, ?_, version, hstanding⟩
      obtain ⟨j, hj⟩ := List.getElem?_of_mem hx
      have hne : i ≠ j := by
        rintro rfl
        obtain rfl : o = x := Option.some.inj (hget.symm.trans hj)
        exact hopen _ _ hstanding
      exact List.mem_of_getElem? ((List.getElem?_set_ne hne).trans hj)
    · exact .inr ⟨o', List.mem_set hi o', hnew⟩

theorem sound_step (h : Sound limit s) (e : Event) : Sound limit (s.step e) := by
  cases e with
  | begun =>
    refine ⟨h.positive, h.attempts, ?_, ?_⟩
    · intro o ho
      rcases List.mem_append.1 ho with ho | ho
      · exact h.follows o ho
      · obtain rfl := List.mem_singleton.1 ho
        exact follows_start h.positive h.attempts
    · exact h.current.imp_right fun ⟨o, ho, hrest⟩ => ⟨o, List.mem_append_left _ ho, hrest⟩
  | answered i answer =>
    rw [step]
    split
    case h_1 reads r hget =>
      obtain ⟨hlimit, hreads⟩ := h.follows _ (List.mem_of_getElem? hget)
      exact h.goOn hget (fun _ _ => Standing.noConfusion) (follows_answered hlimit hreads answer)
        rfl
        (.inl rfl)
    case h_2 => exact h
  | returned i =>
    rw [step]
    split
    case h_1 reads result hget =>
      have hcourse : Course limit limit reads result := h.follows _ (List.mem_of_getElem? hget)
      cases result with
      | error e => exact h.goOn hget (fun _ _ => Standing.noConfusion) hcourse rfl (.inl rfl)
      | ok found =>
        refine h.goOn hget (fun _ _ => Standing.noConfusion) hcourse (Cache.install_attempts ..) ?_
        rw [Cache.install]
        split
        · exact .inr ⟨_, rfl⟩
        · exact .inl rfl
    case h_2 => exact h

theorem sound_run (h : Sound limit s) (es : List Event) : Sound limit (s.run es) := by
  induction es generalizing s with
  | nil => exact h
  | cons e es ih => exact ih (sound_step h e)

theorem cache_step (s : Refreshing) (e : Event) :
    (s.step e).cache = s.cache ∨ ∃ found, (s.step e).cache = s.cache.install found := by
  cases e with
  | begun => exact .inl rfl
  | answered i answer =>
    rw [step]
    split
    case h_1 => exact .inl rfl
    case h_2 => exact .inl rfl
  | returned i =>
    rw [step]
    split
    case h_1 reads result hget =>
      cases result with
      | error e => exact .inl rfl
      | ok found => exact .inr ⟨found, rfl⟩
    case h_2 => exact .inl rfl

theorem version_le_run (s : Refreshing) (es : List Event) :
    s.cache.current.version ≤ (s.run es).cache.current.version := by
  induction es generalizing s with
  | nil => exact Nat.le_refl _
  | cons e es ih =>
    refine Nat.le_trans ?_ (ih (s.step e))
    rcases s.cache_step e with hsame | ⟨found, hinstalled⟩
    · exact Nat.le_of_eq (congrArg (·.current.version) hsame.symm)
    · rw [hinstalled]
      exact Cache.version_le_install ..

theorem step_returned_error {i : Nat} {e : ClientError}
    (hget : s.refreshes[i]? = some ⟨reads, .found (.error e)⟩) :
    s.step (.returned i) =
      ⟨s.cache, s.refreshes.set i ⟨reads, .returned (.error e) (.error e)⟩⟩ := by
  rw [step, hget]
  rfl

theorem step_returned_ok {i : Nat} {found : Snapshot}
    (hget : s.refreshes[i]? = some ⟨reads, .found (.ok found)⟩) :
    s.step (.returned i) =
      ⟨s.cache.install found, s.refreshes.set i
        ⟨reads, .returned (.ok found) (.ok (s.cache.install found).current.version)⟩⟩ := by
  rw [step, hget]
  rfl

/-- How a cache and its refreshes are at some time, each of which may read up to `limit` pairs. -/
structure Consistent (limit : Nat) (s : Refreshing) : Prop where
  follows : ∀ o ∈ s.refreshes, o.Follows limit
  reads : ∀ o ∈ s.refreshes, o.reads.length ≤ 2 * limit
  apart : ∀ e, (∀ i, e ≠ .returned i) → (s.step e).cache = s.cache
  failed : ∀ i reads e, s.refreshes[i]? = some ⟨reads, .found (.error e)⟩ →
    s.step (.returned i) =
      ⟨s.cache, s.refreshes.set i ⟨reads, .returned (.error e) (.error e)⟩⟩
  succeeded : ∀ i reads found, s.refreshes[i]? = some ⟨reads, .found (.ok found)⟩ →
    let t := s.step (.returned i)
    Agreed reads found ∧
    t.cache.current =
      (if s.cache.current.version ≤ found.version then found else s.cache.current) ∧
    t.refreshes =
      s.refreshes.set i ⟨reads, .returned (.ok found) (.ok t.cache.current.version)⟩
  visible : s.cache.current = .empty ∨ ∃ o ∈ s.refreshes, Agreed o.reads s.cache.current
  monotone : ∀ more, s.cache.current.version ≤ (s.run more).cache.current.version

/-- In every run of refreshes, however their reads are answered and in whichever order they return,
each one follows its course, and the cache takes what it found unless that is older. So what can be
seen in the cache is always what two reads of one version said, and that version never goes back. -/
theorem consistent_run (attempts : Nat) (es : List Event) :
    Consistent (max attempts 1) ((create attempts).run es) := by
  have hsound := sound_run (sound_create attempts) es
  exact
    { follows := hsound.follows
      reads := fun o ho => (hsound.follows o ho).length_le
      apart := by
        intro e he
        cases e with
        | begun => rfl
        | answered i answer =>
          rw [step]
          split <;> rfl
        | returned i => exact absurd rfl (he i)
      failed := fun i reads e => step_returned_error
      succeeded := by
        intro i reads found hget t
        have hcourse : Course (max attempts 1) (max attempts 1) reads (.ok found) :=
          hsound.follows _ (List.mem_of_getElem? hget)
        have ht := step_returned_ok hget
        refine ⟨hcourse.agreed_of_ok, ?_, ?_⟩
        · rw [show t = _ from ht, Cache.install]
          split <;> rfl
        · rw [show t = _ from ht]
      visible := hsound.agreed
      monotone := version_le_run _ }

/-- Of two refreshes the one that read last returns first, and the older one is not taken. -/
example :
    let answer (version : Nat) : Answer := .ok ⟨0, some version, none, .empty⟩
    let s := (create 0).run
      [.begun, .begun, .answered 0 (answer 1), .answered 0 (answer 1), .answered 1 (answer 2),
        .answered 1 (answer 2), .returned 1, .returned 0]
    s.cache.current.version = 2 := by
  decide

end Refreshing

end TupleClient.Catalog
