import TupleClient.Proofs.Client.Upkeep
import TupleClient.Proofs.Catalog.Refreshing

/-!
Where the operations of a client are. Those that its retries hold or that have ended make up its
places; those of the user may also wait for the catalog to be read, and each reading of the catalog
has one place.
-/
namespace TupleClient.Client

variable {κ : Type} {limit : Nat} {c c' : Client κ} {t : Turn κ}

def Tag.user? : Tag κ → Option κ
  | .user tag => some tag
  | _ => none

def Tag.read? : Tag κ → Option Nat
  | .read number => some number
  | _ => none

def Purpose.tag? : Purpose κ → Option κ
  | .ensure _ tag => some tag
  | _ => none

def Effect.finished? : Effect κ → Option κ
  | .finished tag _ => some tag
  | _ => none

/-- The operations that have ended and are not dealt with, and those that are held. -/
def places (c : Client κ) : List (Tag κ) :=
  c.ended.map Prod.fst ++ c.retry.held.map Prod.snd

/-- The operations of the user that the client has. -/
def users (c : Client κ) : List κ :=
  c.places.filterMap Tag.user? ++ c.tasks.filterMap (·.purpose.tag?)

def reads (c : Client κ) : List Nat := c.places.filterMap Tag.read?

def Turn.finished (t : Turn κ) : List κ := t.effects.filterMap Effect.finished?

/-- Each reading of the catalog has a number of its own, and one read on its way. -/
structure Booked (limit : Nat) (c : Client κ) : Prop where
  sound : Retry.Sound (fun _ => True) c.retry
  entered : Retry.Entered c.retry
  catalog : ∃ cache, c.retry.catalog = some cache ∧ cache.attempts = limit
  numbered : (c.tasks.map Task.number).Nodup
  fresh : ∀ t ∈ c.tasks, t.number < c.nextTask
  reads : c.reads.Perm (c.tasks.map Task.number)

/-- A turn in which `new` operations of the user come in. They and those that the client had are
still there, or are told to have ended. -/
structure Books (limit : Nat) (c : Client κ) (new : List κ) (t : Turn κ) : Prop where
  booked : Booked limit t.client
  users : (t.finished ++ t.client.users).Perm (c.users ++ new)

theorem Books.andThen {f : Client κ → Turn κ} {new more : List κ} (h : Books limit c new t)
    (g : Books limit t.client more (f t.client)) : Books limit c (new ++ more) (t.andThen f) where
  booked := g.booked
  users := by
    have hfinished : (t.andThen f).finished = t.finished ++ (f t.client).finished :=
      List.filterMap_append
    rw [hfinished, List.append_assoc]
    calc (t.finished ++ ((f t.client).finished ++ (f t.client).client.users)).Perm
          (t.finished ++ (t.client.users ++ more)) := g.users.append_left _
      List.Perm _ (t.finished ++ t.client.users ++ more) := by rw [List.append_assoc]
      List.Perm _ (c.users ++ new ++ more) := h.users.append_right _
      _ = c.users ++ (new ++ more) := List.append_assoc ..

def SameBooks (c d : Client κ) : Prop :=
  (d.retry, d.tasks, d.nextTask, d.ended) = (c.retry, c.tasks, c.nextTask, c.ended)

theorem SameBooks.places {d : Client κ} (h : SameBooks c d) : d.places = c.places := by
  obtain ⟨hretry, -, -, hended⟩ := by simpa [SameBooks] using h
  rw [Client.places, Client.places, hretry, hended]

theorem SameBooks.users {d : Client κ} (h : SameBooks c d) : d.users = c.users := by
  have hplaces := h.places
  obtain ⟨-, htasks, -, -⟩ := by simpa [SameBooks] using h
  rw [Client.users, Client.users, hplaces, htasks]

theorem Booked.same {d : Client κ} (h : c.Booked limit) (hd : SameBooks c d) : d.Booked limit := by
  have hplaces := hd.places
  obtain ⟨hretry, htasks, hnext, -⟩ := by simpa [SameBooks] using hd
  exact
    { sound := hretry ▸ h.sound
      entered := hretry ▸ h.entered
      catalog := hretry ▸ h.catalog
      numbered := htasks ▸ h.numbered
      fresh := by
        rw [htasks, hnext]
        exact h.fresh
      reads := by
        rw [Client.reads, hplaces, htasks]
        exact h.reads }

theorem Books.same {d : Client κ} {new : List κ} (h : Books limit d new t) (hd : SameBooks c d) :
    Books limit c new t :=
  ⟨h.booked, hd.users ▸ h.users⟩

theorem Booked.books_words {d : Client κ} (h : c.Booked limit) (hd : SameBooks c d)
    (effects : List (Effect κ)) (heffects : effects.filterMap Effect.finished? = []) :
    Books limit c [] ⟨d, effects⟩ where
  booked := h.same hd
  users := by rw [Turn.finished, heffects, List.nil_append, List.append_nil, hd.users]

theorem Booked.books_quiet (h : c.Booked limit) : Books limit c [] c.quiet :=
  h.books_words rfl [] rfl

theorem finished_absorb (c : Client κ) (step : Retry (Tag κ) × Report (Tag κ)) :
    (c.absorb step).finished = [] := by
  simp only [Turn.finished, absorb]
  cases step.2.written <;> cases step.2.hungUp <;> rfl

theorem places_absorb (h : c.Booked limit) (e : Retry.Event (Tag κ)) :
    (c.absorb (c.retry.step e)).client.places.Perm
      (c.places ++ (c.retry.gives e).map Prod.snd) := by
  obtain ⟨told, htold, hperm⟩ :=
    (Retry.custody_step h.sound h.entered e fun _ _ => trivial).accounts
  have hended : (c.absorb (c.retry.step e)).client.ended.map Prod.fst =
      c.ended.map Prod.fst ++ told.map Prod.snd := by
    rw [htold, absorb, List.map_append]
    rfl
  have hheld := hperm.map Prod.snd
  rw [List.map_append, List.map_append] at hheld
  rw [places, places, hended, List.append_assoc, List.append_assoc]
  exact hheld.append_left _

theorem Booked.books_event (h : c.Booked limit) (e : Retry.Event (Tag κ)) (extra : List (Task κ))
    (hreads : (c.retry.gives e).filterMap (Tag.read? ∘ Prod.snd) = extra.map Task.number)
    (hnumbered : ((c.tasks ++ extra).map Task.number).Nodup)
    (hfresh : ∀ t ∈ extra, t.number < c.nextTask) :
    Books limit c
      ((c.retry.gives e).filterMap (Tag.user? ∘ Prod.snd) ++ extra.filterMap (·.purpose.tag?))
      (absorb { c with tasks := c.tasks ++ extra } (c.retry.step e)) := by
  have hplaces : (absorb { c with tasks := c.tasks ++ extra } (c.retry.step e)).client.places.Perm
      (c.places ++ (c.retry.gives e).map Prod.snd) := places_absorb h e
  refine ⟨?_, ?_⟩
  · exact
      { sound := (Retry.custody_step h.sound h.entered e fun _ _ => trivial).sound
        entered := Retry.entered_step h.sound h.entered e fun _ _ => trivial
        catalog := by
          obtain ⟨cache, hcache, hattempts⟩ := h.catalog
          have hcatalog : (c.retry.step e).1.catalog = c.retry.catalog ∨
              ∃ s, (c.retry.step e).1.catalog = c.retry.catalog.map (·.install s) :=
            Retry.catalog_step c.retry e
          rw [hcache] at hcatalog
          rcases hcatalog with hsame | ⟨s, hinstalled⟩
          · exact ⟨cache, hsame, hattempts⟩
          · exact ⟨cache.install s, hinstalled, (Catalog.Cache.install_attempts ..).trans hattempts⟩
        numbered := hnumbered
        fresh := List.forall_mem_append.2 ⟨h.fresh, hfresh⟩
        reads := by
          have hall := hplaces.filterMap Tag.read?
          rw [List.filterMap_append, List.filterMap_map, hreads] at hall
          rw [absorb, List.map_append]
          exact hall.trans (h.reads.append_right _) }
  · have hall := hplaces.filterMap Tag.user?
    rw [List.filterMap_append, List.filterMap_map] at hall
    rw [finished_absorb, List.nil_append]
    calc (absorb { c with tasks := c.tasks ++ extra } (c.retry.step e)).client.users.Perm
          (c.places.filterMap Tag.user? ++ (c.retry.gives e).filterMap (Tag.user? ∘ Prod.snd) ++
            (c.tasks ++ extra).filterMap (·.purpose.tag?)) := hall.append_right _
      List.Perm _ (c.users ++ ((c.retry.gives e).filterMap (Tag.user? ∘ Prod.snd) ++
          extra.filterMap (·.purpose.tag?))) := by
        rw [Client.users, List.filterMap_append, List.append_assoc, List.append_assoc]
        exact (List.perm_append_comm_assoc ..).append_left _

theorem Booked.books_absorb (h : c.Booked limit) (e : Retry.Event (Tag κ))
    (hreads : (c.retry.gives e).filterMap (Tag.read? ∘ Prod.snd) = []) :
    Books limit c ((c.retry.gives e).filterMap (Tag.user? ∘ Prod.snd))
      (c.absorb (c.retry.step e)) := by
  have hall := h.books_event e [] hreads (by simpa using h.numbered) (List.forall_mem_nil _)
  simpa using hall

theorem Booked.books_signal (h : c.Booked limit) (s : Signal) : Books limit c [] (c.signal s) :=
  h.books_absorb (.signal s) rfl

structure SamePlaces (limit : Nat) (c c' : Client κ) : Prop where
  booked : c'.Booked limit
  places : c'.places.Perm c.places

theorem SamePlaces.trans {last : Client κ} (h : SamePlaces limit c c')
    (g : SamePlaces limit c' last) : SamePlaces limit c last :=
  ⟨g.booked, g.places.trans h.places⟩

theorem Booked.samePlaces_absorb (h : c.Booked limit) (e : Retry.Event (Tag κ))
    (he : c.retry.gives e = []) : SamePlaces limit c (c.absorb (c.retry.step e)).client where
  booked := (h.books_absorb e (by rw [he]; rfl)).booked
  places := by
    have hplaces := places_absorb h e
    rwa [he, List.map_nil, List.append_nil] at hplaces

theorem Booked.samePlaces_signal (h : c.Booked limit) (s : Signal) :
    SamePlaces limit c (c.signal s).client :=
  h.samePlaces_absorb (.signal s) rfl

theorem Upkeep.samePlaces (h : Upkeep c c') (hc : c.Booked limit) : SamePlaces limit c c' := by
  refine h.carries (R := fun c c' => c.Booked limit → SamePlaces limit c c')
    (fun c hc => ⟨hc, .refl _⟩) ?_ (fun c s hc => hc.samePlaces_signal s)
    (fun c now hc => hc.samePlaces_absorb (.clock now) rfl)
    (fun c s hc => ⟨{ hc with }, .refl _⟩) hc
  intro first next last hfirst hnext hc
  exact (hfirst hc).trans (hnext (hfirst hc).booked)

theorem Turn.Wordless.finished (h : t.Wordless) : t.finished = [] := by
  refine List.filterMap_eq_nil_iff.2 fun e he => ?_
  cases e with
  | finished tag outcome => exact absurd trivial (h _ he)
  | _ => rfl

/-- A turn that says nothing and after which all operations are where they were. -/
theorem SamePlaces.books (h : SamePlaces limit c t.client) (htasks : t.client.tasks = c.tasks)
    (hwords : t.Wordless) : Books limit c [] t where
  booked := h.booked
  users := by
    rw [hwords.finished, List.nil_append, List.append_nil, Client.users, Client.users, htasks]
    exact (h.places.filterMap _).append_right _

theorem Booked.books_upkeep (h : c.Booked limit) (hupkeep : Upkeep c t.client)
    (hwords : t.Wordless) :
    Books limit c [] t :=
  (hupkeep.samePlaces h).books hupkeep.beside.tasks hwords

theorem Booked.books_shut (h : c.Booked limit) (reason : ClientError) :
    Books limit c [] (c.shut reason) :=
  ((h.same (d := { c with discovery := { c.discovery with next := none } }) rfl).books_signal
    (.closed reason)).same rfl

theorem Booked.books_refuse (h : c.Booked limit) (reason e : ClientError) :
    Books limit c [] (c.refuse reason e) := by
  have hrefused {d : Client κ} (hd : d.Booked limit) :
      Books limit d [] ⟨{ d with opening := .refused }, [.refused e]⟩ :=
    hd.books_words (d := { d with opening := .refused }) rfl _ rfl
  have hshut := h.books_shut reason
  exact hshut.andThen (f := fun c => ⟨{ c with opening := .refused }, [.refused e]⟩)
    (hrefused hshut.booked)

theorem Booked.books_readFor (h : c.Booked limit) (now : Nat) (task : Task κ)
    (hnumber : task.number ∉ c.tasks.map Task.number) (hfresh : task.number < c.nextTask) :
    Books limit c task.purpose.tag?.toList (c.readFor now task) := by
  have hnumbered : ((c.tasks ++ [task]).map Task.number).Nodup := by
    rw [List.map_append]
    exact List.nodup_append_comm.2 (List.nodup_cons.2 ⟨hnumber, h.numbered⟩)
  have hall := h.books_event (.plain now none task.refresh.view.request c.settings.operationTimeout
    (.read task.number)) [task] rfl hnumbered (List.forall_mem_singleton.2 hfresh)
  have htags : [task].filterMap (·.purpose.tag?) = task.purpose.tag?.toList := by
    cases htag : task.purpose.tag? <;> simp [htag]
  rw [htags] at hall
  exact hall

theorem Booked.lt_of_mem (h : c.Booked limit) {number : Nat}
    (hmem : number ∈ c.tasks.map Task.number) : number < c.nextTask := by
  obtain ⟨task, htask, rfl⟩ := List.mem_map.1 hmem
  exact h.fresh task htask

theorem Booked.books_startTask (h : c.Booked limit) (now : Nat) (purpose : Purpose κ) :
    Books limit c purpose.tag?.toList (c.startTask now purpose) := by
  have hcounted : Booked limit { c with nextTask := c.nextTask + 1 } :=
    { h with fresh := fun t ht => Nat.lt_succ_of_lt (h.fresh t ht) }
  have hread := hcounted.books_readFor now ⟨c.nextTask, .start c.cache, purpose⟩
    (fun hmem => Nat.lt_irrefl _ (h.lt_of_mem hmem)) (Nat.lt_succ_self _)
  exact ⟨hread.booked, hread.users⟩

theorem Booked.books_submit (h : c.Booked limit) (now : Nat) (request : Request) (tag : κ) :
    Books limit c [tag] (c.submit now request tag) := by
  rw [submit]
  by_cases hcluster : c.settings.cluster.isSome = true
  · simp only [hcluster, if_true]
    exact h.books_absorb (.execute now none request c.settings.operationTimeout (.user tag)) rfl
  · simp only [hcluster]
    exact h.books_absorb (.plain now none request c.settings.operationTimeout (.user tag)) rfl

theorem Booked.books_execute (h : c.Booked limit) (now : Nat) (request : Request) (tag : κ) :
    Books limit c [tag] (c.execute now request tag) := by
  rw [execute]
  split
  · exact h.books_startTask now (.ensure request tag)
  · exact h.books_submit now request tag

theorem Booked.install (h : c.Booked limit) (s : Catalog.Snapshot) :
    (c.install s).Booked limit where
  sound := ⟨h.sound.numbered, h.sound.sent, ⟨h.sound.kept.rearmed, h.sound.kept.closed⟩,
    h.sound.closed⟩
  entered := ⟨h.entered.distinct, h.entered.lt_nextEntry⟩
  catalog := by
    obtain ⟨cache, hcache, hattempts⟩ := h.catalog
    refine ⟨cache.install s, ?_, (Catalog.Cache.install_attempts ..).trans hattempts⟩
    rw [Client.install, Retry.install, hcache]
    rfl
  numbered := h.numbered
  fresh := h.fresh
  reads := h.reads

theorem Booked.books_finish (h : c.Booked limit) (now : Nat) (purpose : Purpose κ)
    (result : Except ClientError Catalog.Snapshot) :
    Books limit c purpose.tag?.toList (c.finish now purpose result) := by
  cases purpose with
  | opening =>
    cases result with
    | ok s =>
      obtain ⟨discovery, hpoll⟩ := awaitPoll_eq { c.install s with opening := .done } now
      rw [finish, hpoll]
      have hall := (h.install s).books_words
        (d := { c.install s with opening := .done, discovery := discovery }) rfl
        [.opened] rfl
      exact ⟨hall.booked, hall.users⟩
    | error e => exact h.books_refuse _ e
  | ensure request tag =>
    have htold (c : Client κ) (h : c.Booked limit) (e : ClientError) :
        Books limit c [tag] ⟨c, [.finished tag (.error e)]⟩ :=
      ⟨h, List.perm_append_comm⟩
    cases result with
    | ok s =>
      rw [finish]
      split
      · have hall := htold (c.install s) (h.install s)
        exact ⟨(hall _).booked, (hall _).users⟩
      · have hall := (h.install s).books_submit now request tag
        exact ⟨hall.booked, hall.users⟩
    | error e => exact htold c h e
  | replay => exact h.books_absorb (.refreshed now none result) rfl

theorem perm_cons_filter {α : Type} {f : α → Nat} {l : List α} (h : (l.map f).Nodup) {n : Nat}
    {x : α}
    (hx : l.find? (f · == n) = some x) : l.Perm (x :: l.filter (f · != n)) := by
  induction l with
  | nil => simp at hx
  | cons y l ih =>
    obtain ⟨hy, hl⟩ := List.nodup_cons.1 (List.map_cons ▸ h)
    by_cases hn : f y = n
    · obtain rfl : y = x := by simpa [hn] using hx
      have hothers : l.filter (f · != n) = l := by
        refine List.filter_eq_self.2 fun z hz => ?_
        have hz' : f z ≠ n := fun heq => hy (hn ▸ heq ▸ List.mem_map_of_mem hz)
        simpa using hz'
      simp [hn, hothers]
    · rw [List.find?_cons_of_neg (by simpa using hn)] at hx
      rw [List.filter_cons_of_pos (by simpa using hn)]
      exact ((ih hl hx).cons y).trans (.swap ..)

theorem perm_eraseIdx {α : Type} {l : List α} {i : Nat} {x : α} (h : l[i]? = some x) :
    l.Perm (x :: l.eraseIdx i) := by
  obtain ⟨hi, rfl⟩ := List.getElem?_eq_some_iff.1 h
  exact (List.getElem_cons_eraseIdx_perm hi).symm

theorem places_eraseIdx {i : Nat} {tag : Tag κ} {outcome : Outcome}
    (h : c.ended[i]? = some (tag, outcome)) :
    c.places.Perm (tag :: ({ c with ended := c.ended.eraseIdx i } : Client κ).places) :=
  ((perm_eraseIdx h).map Prod.fst).append_right _

/-- What an answer takes off the books: a task, and the place of its read. -/
def withoutTask (c : Client κ) (i number : Nat) : Client κ :=
  { c with ended := c.ended.eraseIdx i, tasks := c.tasks.filter (·.number != number) }

theorem Booked.taken (h : c.Booked limit) {i number : Nat} {outcome : Outcome}
    (hended : c.ended[i]? = some (.read number, outcome)) :
    ∃ task, c.tasks.find? (·.number == number) = some task ∧
      c.tasks.Perm (task :: (c.withoutTask i number).tasks) ∧
      (c.withoutTask i number).Booked limit ∧ task.number = number ∧
      number ∉ (c.withoutTask i number).tasks.map Task.number := by
  have hreads : c.reads.Perm (number :: (c.withoutTask i number).reads) :=
    (places_eraseIdx hended).filterMap Tag.read?
  have hmem : number ∈ c.tasks.map Task.number :=
    h.reads.subset (hreads.symm.subset List.mem_cons_self)
  have hfound : (c.tasks.find? (·.number == number)).isSome := by
    obtain ⟨task, htask, hnumber⟩ := List.mem_map.1 hmem
    exact List.find?_isSome.2 ⟨task, htask, by simpa using hnumber⟩
  obtain ⟨task, htask⟩ := Option.isSome_iff_exists.1 hfound
  have hperm := perm_cons_filter h.numbered htask
  have hnumber : task.number = number := by simpa using List.find?_some htask
  have hnumbers : (c.tasks.map Task.number).Perm
      (number :: (c.withoutTask i number).tasks.map Task.number) := hnumber ▸ hperm.map Task.number
  have hnodup := List.nodup_cons.1 (hnumbers.nodup_iff.1 h.numbered)
  refine ⟨task, htask, hperm, ?_, hnumber, hnodup.1⟩
  exact
    { sound := h.sound
      entered := h.entered
      catalog := h.catalog
      numbered := hnodup.2
      fresh := fun t ht => h.fresh t (List.mem_filter.1 ht).1
      reads := List.Perm.cons_inv ((hreads.symm.trans h.reads).trans hnumbers) }

theorem Booked.books_answered (h : c.Booked limit) (now : Nat) {i number : Nat} {outcome : Outcome}
    (hended : c.ended[i]? = some (.read number, outcome)) :
    Books limit c [] (answered { c with ended := c.ended.eraseIdx i } now number outcome) := by
  obtain ⟨task, htask, hperm, hbooked, hnumber, hother⟩ := h.taken hended
  have husers : c.users.Perm ((c.withoutTask i number).users ++ task.purpose.tag?.toList) := by
    have hplaces : (c.places.filterMap Tag.user?).Perm
        ((c.withoutTask i number).places.filterMap Tag.user?) :=
      (places_eraseIdx hended).filterMap Tag.user?
    have htags : (c.tasks.filterMap (·.purpose.tag?)).Perm
        ((c.withoutTask i number).tasks.filterMap (·.purpose.tag?) ++
          task.purpose.tag?.toList) := by
      refine (hperm.filterMap _).trans ?_
      cases htag : task.purpose.tag? with
      | none => simp [htag]
      | some tag =>
        simp only [List.filterMap_cons, htag]
        exact (List.perm_append_singleton tag _).symm
    rw [users, users, List.append_assoc]
    exact hplaces.append htags
  have hlater {t : Turn κ}
    (ht : Books limit (c.withoutTask i number) task.purpose.tag?.toList t) :
      Books limit c [] t :=
    ⟨ht.booked, by
      rw [List.append_nil]
      exact ht.users.trans husers.symm⟩
  simp only [answered, htask]
  split
  · rename_i refresh _
    exact hlater (hbooked.books_readFor now { task with refresh := refresh }
      (hnumber.symm ▸ hother) (h.fresh task (List.mem_of_find?_eq_some htask)))
  · exact hlater (hbooked.books_finish now task.purpose _)

theorem Booked.books_polled (h : c.Booked limit) (now : Nat) (outcome : Outcome) :
    Books limit c [] (c.polled now outcome) := by
  obtain ⟨discovery, addresses, hpolled⟩ := polled_cases c now outcome
  have hsame : SameBooks c { c with
      discovery := discovery
      supervisor := { c.supervisor with addresses := addresses } } := rfl
  rcases hpolled with hleft | hstayed
  · rw [hleft]
    exact ((h.same hsame).books_signal .reconnect).same hsame
  · rw [hstayed]
    exact h.books_words hsame [] rfl

theorem Booked.books_look (h : c.Booked limit) (now : Nat) :
    Books limit c [] (c.look now) := by
  unfold look
  split
  · split
    · exact h.books_words (d := { c with opening := .found }) rfl [] rfl
    · exact h.books_refuse _ _
    · split
      · exact h.books_refuse _ _
      · exact h.books_quiet
  · have hloading : Booked limit { c with opening := .loading } := h.same rfl
    exact (hloading.books_startTask now .opening).same rfl
  · exact h.books_quiet

theorem Booked.books_beginReplay (h : c.Booked limit) (now : Nat) :
    Books limit c [] (c.beginReplay now) := by
  have hbegun : Booked limit { c with retry := { c.retry with replays := c.retry.replays - 1 } } :=
    { h with
      sound := ⟨h.sound.numbered, h.sound.sent, ⟨h.sound.kept.rearmed, h.sound.kept.closed⟩,
        h.sound.closed⟩
      entered := ⟨h.entered.distinct, h.entered.lt_nextEntry⟩ }
  unfold beginReplay
  simp only
  split
  · have hall := hbegun.books_startTask now .replay
    exact ⟨hall.booked, hall.users⟩
  · have hall := hbegun.books_absorb (.resubmit now none) rfl
    exact ⟨hall.booked, hall.users⟩

theorem Booked.books_tickDiscovery (h : c.Booked limit) (now : Nat) :
    Books limit c [] (c.tickDiscovery now) := by
  unfold tickDiscovery
  split
  · rename_i function time hfunction hnext
    split
    · have hall := (h.same (d := { c with discovery := { c.discovery with next := none } })
        rfl).books_absorb (.plain now none (Membership.request function) c.settings.operationTimeout
          .members) rfl
      exact hall.same rfl
    · exact h.books_quiet
  · exact h.books_quiet

theorem Booked.books_tickOpening (h : c.Booked limit) (now : Nat) :
    Books limit c [] (c.tickOpening now) := by
  unfold tickOpening
  split
  · split
    · exact h.books_look now
    · exact h.books_quiet
  · exact h.books_quiet

/-- The operation that a move brings. -/
def Move.executed : Move κ → List κ
  | .event _ (.execute _ tag) => [tag]
  | _ => []

theorem Booked.fetched (h : c.Booked limit) {i : Nat} {tag : Tag κ} {outcome : Outcome}
    (hended : c.ended[i]? = some (tag, outcome)) (htag : tag.read? = none) :
    ({ c with ended := c.ended.eraseIdx i } : Client κ).Booked limit ∧
      c.users.Perm
        (tag.user?.toList ++ ({ c with ended := c.ended.eraseIdx i } : Client κ).users) := by
  have hplaces := places_eraseIdx hended
  have hreads := hplaces.filterMap Tag.read?
  rw [List.filterMap_cons_none htag] at hreads
  refine ⟨{ h with reads := hreads.symm.trans h.reads }, ?_⟩
  have husers := (hplaces.filterMap Tag.user?).append_right (c.tasks.filterMap (·.purpose.tag?))
  cases huser : tag.user? with
  | none => rwa [List.filterMap_cons_none huser] at husers
  | some user => rwa [List.filterMap_cons_some huser] at husers

theorem Booked.books_fetch (h : c.Booked limit) (now i : Nat) :
    Books limit c [] (c.fetch now i) := by
  unfold fetch
  split
  · rename_i tag outcome hended
    cases tag with
    | user tag =>
      obtain ⟨hbooked, husers⟩ := h.fetched hended rfl
      refine ⟨hbooked, ?_⟩
      rw [List.append_nil]
      exact husers.symm
    | read number => exact h.books_answered now hended
    | members =>
      obtain ⟨hbooked, husers⟩ := h.fetched hended rfl
      have hall := hbooked.books_polled now outcome
      refine ⟨hall.booked, hall.users.trans ?_⟩
      rw [List.append_nil, List.append_nil]
      exact husers.symm
  · exact h.books_quiet

theorem Booked.books_act (h : c.Booked limit) (m : Move κ) :
    Books limit c m.executed (c.act m) := by
  cases m with
  | event now e =>
    by_cases he : e.IsHeard
    · have hnothing : (Move.event now e).executed = [] := by
        cases e with
        | execute request tag => exact he.elim
        | _ => rfl
      rw [hnothing]
      exact h.books_upkeep (upkeep_heard now he) (wordless_heard now he)
    · cases e with
      | clock =>
        have hkept := h.books_upkeep (upkeep_keepTime c now) (wordless_keepTime c now)
        have hasked := hkept.andThen (f := (·.tickDiscovery now))
          (hkept.booked.books_tickDiscovery now)
        exact hasked.andThen (f := (·.tickOpening now)) (hasked.booked.books_tickOpening now)
      | execute request tag => exact h.books_execute now request tag
      | close => exact h.books_shut _
      | _ => exact absurd trivial he
  | proceed now w =>
    cases w with
    | supervisor => exact h.books_upkeep (upkeep_attend c now) (wordless_attend c now)
    | opening => exact h.books_look now
    | waiter i => exact h.books_fetch now i
    | replay =>
      simp only [act, proceed]
      split
      · exact h.books_beginReplay now
      · exact h.books_quiet
    | writer => exact h.books_signal (.writable none)

theorem booked_after (h : c.Booked limit) (moves : List (Move κ)) :
    (c.after moves).Booked limit := by
  induction moves generalizing c with
  | nil => exact h
  | cons m moves ih => exact ih (h.books_act m).booked

theorem booked_create (s : Settings) (now : Nat) :
    (create s now : Client κ).Booked (max s.refreshAttempts 1) where
  sound := Retry.sound_create ..
  entered := Retry.entered_create ..
  catalog := ⟨.create s.refreshAttempts, rfl, rfl⟩
  numbered := .nil
  fresh := List.forall_mem_nil _
  reads := .refl _

theorem booked_start (s : Settings) (now : Nat) :
    ((start (create s now)).client : Client κ).Booked (max s.refreshAttempts 1) :=
  ((booked_create s now).books_signal .supervised).booked

theorem users_start (s : Settings) (now : Nat) :
    ((start (create s now)).client : Client κ).users = [] :=
  (List.append_eq_nil_iff.1 ((booked_create s now).books_signal .supervised).users.eq_nil).2

end TupleClient.Client
