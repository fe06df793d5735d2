import EventHttp.Proofs.Credentials.Calls

/-! A store with all the calls that were ever made on it.  However their steps fall, it is one map
in which a name keeps the password that it was first given, and every call can be told from what
it found. -/

namespace EventHttp

/-- A store, and the calls on it in the order in which they were made. -/
structure Registry where
  store : Credentials
  calls : List Call

inductive RegistryStep where
  | enter (inquiry : Inquiry)
  | advance (i : Nat)

namespace Registry

def held (r : Registry) (i : Fin shardCount) : Bool :=
  r.calls.any fun c => c.stage.holds && r.store.shardOf c.inquiry.name == i

def advance (r : Registry) (i : Nat) : Registry :=
  match r.calls[i]? with
  | none => r
  | some c =>
    let (c, store) := c.move (r.held (r.store.shardOf c.inquiry.name)) r.store
    ⟨store, r.calls.set i (c.noting r.store store)⟩

def step (r : Registry) : RegistryStep → Registry
  | .enter inquiry => { r with calls := r.calls ++ [.start inquiry] }
  | .advance i => r.advance i

def run (r : Registry) (steps : List RegistryStep) : Registry :=
  steps.foldl step r

variable {initial : Credentials} {r : Registry} {c d : Call} {i j : Nat} {name password : String}

theorem advance_of_some (hi : r.calls[i]? = some c) :
    r.advance i =
      ⟨(c.move (r.held (r.store.shardOf c.inquiry.name)) r.store).2, r.calls.set i
        ((c.move (r.held (r.store.shardOf c.inquiry.name)) r.store).1.noting r.store
          (c.move (r.held (r.store.shardOf c.inquiry.name)) r.store).2)⟩ := by
  rw [advance, hi]

theorem advance_of_none (hi : r.calls[i]? = none) : r.advance i = r := by
  rw [advance, hi]

def Created (r : Registry) (name : String) (i : Nat) : Prop :=
  ∃ c, r.calls[i]? = some c ∧ c.found = some false ∧ c.inquiry.name = name

structure Kept (initial : Credentials) (r : Registry) : Prop where
  lived : ∀ c ∈ r.calls, c.Lived
  sharded : r.store.Sharded
  lasting : ∀ name password, initial.find? name = some password → r.store.find? name = some password
  stored : ∀ c ∈ r.calls, c.found = some false →
    r.store.find? c.inquiry.name = some c.inquiry.password ∧ initial.find? c.inquiry.name = none
  once : ∀ name i j, r.Created name i → r.Created name j → i = j
  users : r.store.users + .ofNat (r.calls.countP (·.stage.owesUser)) = .ofNat r.store.names.length
  registrations :
    r.store.registrations + .ofNat (r.calls.countP (·.stage.holds)) = .ofNat r.store.names.length

theorem forall_mem_set {P : Call → Prop} {l : List Call} (hl : ∀ c ∈ l, P c) (hd : P d) (i : Nat) :
    ∀ c ∈ l.set i d, P c := by
  intro c hc
  rcases List.mem_or_eq_of_mem_set hc with hc | rfl
  · exact hl c hc
  · exact hd

theorem countP_set_add {p : Call → Bool} {l : List Call} (hi : l[i]? = some c) (d : Call) :
    (l.set i d).countP p + (p c).toNat = l.countP p + (p d).toNat := by
  obtain ⟨hlt, rfl⟩ := List.getElem?_eq_some_iff.mp hi
  rw [List.countP_set hlt]
  cases hp : p l[i] with
  | true =>
    have hpos : 0 < l.countP p := List.countP_pos_iff.mpr ⟨l[i], List.getElem_mem hlt, hp⟩
    cases p d <;> simp <;> omega
  | false => cases p d <;> simp

theorem owed_add {counter counter' : UInt64} {owed owed' names : Nat} {mine mine' : Bool} (gain : Nat)
    (hk : counter + .ofNat owed = .ofNat names) (ho : owed' + mine.toNat = owed + mine'.toNat)
    (hc : counter' + .ofNat mine'.toNat = counter + .ofNat mine.toNat + .ofNat gain) :
    counter' + .ofNat owed' = .ofNat (names + gain) := by
  have hsum := congrArg UInt64.ofNat ho
  rw [UInt64.ofNat_add, UInt64.ofNat_add] at hsum
  rw [UInt64.ofNat_add, ← hk]
  grind

theorem find?_of_keeps {s s' : Credentials} {c' : Call} (hk : Call.Keeps s c c' s') (name : String) :
    s'.find? name = s.find? name := by
  obtain ⟨shardOf, shards, users, lookups, registrations⟩ := s
  obtain ⟨shardOf', shards', users', lookups', registrations'⟩ := s'
  obtain ⟨rfl, rfl, -, -, -⟩ := hk
  rfl

theorem names_of_keeps {s s' : Credentials} {c' : Call} (hk : Call.Keeps s c c' s') :
    s'.names = s.names := by
  rw [Credentials.names, Credentials.names, hk.shards]

theorem sharded_of_keeps {s s' : Credentials} {c' : Call} (hk : Call.Keeps s c c' s')
    (hs : s.Sharded) : s'.Sharded := by
  obtain ⟨shardOf, shards, users, lookups, registrations⟩ := s
  obtain ⟨shardOf', shards', users', lookups', registrations'⟩ := s'
  obtain ⟨rfl, rfl, -, -, -⟩ := hk
  exact ⟨hs.home, hs.distinct⟩

theorem created_set_iff {store : Credentials} {c' : Call} (hi : r.calls[i]? = some c)
    (hname : c'.inquiry = c.inquiry) :
    Created ⟨store, r.calls.set i c'⟩ name j ↔
      if i = j then c'.found = some false ∧ c.inquiry.name = name else r.Created name j := by
  have hlt : i < r.calls.length := (List.getElem?_eq_some_iff.mp hi).1
  unfold Created
  rw [List.getElem?_set, if_pos hlt]
  split
  · constructor
    · rintro ⟨d, hd, hf, hn⟩
      cases hd
      exact ⟨hf, hname ▸ hn⟩
    · rintro ⟨hf, hn⟩
      exact ⟨c', rfl, hf, hname.symm ▸ hn⟩
  · exact Iff.rfl

theorem Kept.find?_of_created (hk : r.Kept initial) (hc : r.Created name i) :
    (r.store.find? name).isSome = true := by
  obtain ⟨c, hi, hf, rfl⟩ := hc
  rw [(hk.stored c (List.mem_of_getElem? hi) hf).1]
  rfl

theorem Kept.keeps {s' : Credentials} {c' : Call} (hk : r.Kept initial) (hi : r.calls[i]? = some c)
    (hl : c'.Lived) (hq : c'.inquiry = c.inquiry) (hkeeps : Call.Keeps r.store c c' s') :
    Kept initial ⟨s', r.calls.set i c'⟩ where
  lived := forall_mem_set hk.lived hl i
  sharded := sharded_of_keeps hkeeps hk.sharded
  lasting := fun name password hf => (find?_of_keeps hkeeps name).trans (hk.lasting name password hf)
  stored := by
    refine forall_mem_set (fun d hd hf => ?_) (fun hf => ?_) i
    · rw [find?_of_keeps hkeeps]
      exact hk.stored d hd hf
    · rw [find?_of_keeps hkeeps, hq]
      exact hk.stored c (List.mem_of_getElem? hi) (hkeeps.found.mp hf)
  once := by
    have hsame (name : String) (j : Nat) :
        Created ⟨s', r.calls.set i c'⟩ name j → r.Created name j := by
      rw [created_set_iff hi hq]
      split
      · rintro ⟨hf, hn⟩
        rename_i hij
        exact ⟨c, hij ▸ hi, hkeeps.found.mp hf, hn⟩
      · exact id
    exact fun name j j' hj hj' => hk.once name j j' (hsame name j hj) (hsame name j' hj')
  users := by
    rw [names_of_keeps hkeeps]
    exact owed_add 0 hk.users (countP_set_add hi c') (hkeeps.users.trans (UInt64.add_zero _).symm)
  registrations := by
    rw [names_of_keeps hkeeps]
    exact owed_add 0 hk.registrations (countP_set_add hi c')
      (hkeeps.registrations.trans (UInt64.add_zero _).symm)

theorem Kept.creates {s' : Credentials} {c' : Call} (hk : r.Kept initial) (hi : r.calls[i]? = some c)
    (hl : c'.Lived) (hq : c'.inquiry = c.inquiry) (hc : Call.Creates r.store c c' s') :
    Kept initial ⟨s', r.calls.set i c'⟩ := by
  have hlasting : ∀ {key password}, r.store.find? key = some password →
      s'.find? key = some password := hc.find?_of_some
  obtain ⟨hinserting, hfree, rfl, hfound, hcounting⟩ := hc
  have hlength := Credentials.length_names_put r.store c.inquiry.name c.inquiry.password
  have hnobody : ∀ j, ¬ r.Created c.inquiry.name j := by
    intro j hj
    have hsome := hk.find?_of_created hj
    rw [hfree] at hsome
    cases hsome
  constructor
  case lived => exact forall_mem_set hk.lived hl i
  case sharded => exact Credentials.sharded_put hk.sharded hfree _
  case lasting => exact fun name password hf => hlasting (hk.lasting name password hf)
  case stored =>
    refine forall_mem_set (fun d hd hf => ?_) (fun hf => ?_) i
    · exact ⟨hlasting (hk.stored d hd hf).1, (hk.stored d hd hf).2⟩
    · rw [hq]
      refine ⟨(Credentials.find?_put _ _ _ _).trans (if_pos rfl), ?_⟩
      refine Option.eq_none_iff_forall_ne_some.mpr fun password hf => ?_
      cases hfree.symm.trans (hk.lasting _ _ hf)
  case once =>
    intro name j j' hj hj'
    rw [created_set_iff hi hq] at hj hj'
    -- the creator of a name that is still free is nobody but this call
    split at hj
    · split at hj'
      · exact ‹i = j›.symm.trans ‹i = j'›
      · exact absurd (hj.2 ▸ hj') (hnobody j')
    · split at hj'
      · exact absurd (hj'.2 ▸ hj) (hnobody j)
      · exact hk.once name j j' hj hj'
  case users =>
    rw [hlength]
    refine owed_add 1 hk.users (countP_set_add hi c') ?_
    rw [hinserting, hcounting]
    exact congrArg (· + 1) (UInt64.add_zero _).symm
  case registrations =>
    rw [hlength]
    refine owed_add 1 hk.registrations (countP_set_add hi c') ?_
    rw [hinserting, hcounting]
    exact congrArg (· + 1) (UInt64.add_zero _).symm

theorem Kept.advance (hk : r.Kept initial) (i : Nat) : (r.advance i).Kept initial := by
  cases hi : r.calls[i]? with
  | none =>
    rw [advance_of_none hi]
    exact hk
  | some c =>
    have hl := hk.lived c (List.mem_of_getElem? hi)
    have hq := Call.inquiry_move (r.held (r.store.shardOf c.inquiry.name)) r.store c
    have hl' := hl.move (r.held (r.store.shardOf c.inquiry.name)) r.store
    rw [advance_of_some hi]
    rcases hl.move_cases (r.held (r.store.shardOf c.inquiry.name)) r.store with hm | hm
    · exact hk.keeps hi hl' hq ⟨hm.shardOf, hm.shards, hm.found, hm.users, hm.registrations⟩
    · exact hk.creates hi hl' hq ⟨hm.inserting, hm.free, hm.store, hm.found, hm.counting⟩

theorem Kept.enter (hk : r.Kept initial) (inquiry : Inquiry) :
    (r.step (.enter inquiry)).Kept initial where
  lived := by
    intro d hd
    rcases List.mem_append.mp hd with hd | hd
    · exact hk.lived d hd
    · rw [List.mem_singleton.mp hd]
      exact .entering inquiry
  sharded := hk.sharded
  lasting := hk.lasting
  stored := by
    intro d hd hf
    rcases List.mem_append.mp hd with hd | hd
    · exact hk.stored d hd hf
    · rw [List.mem_singleton.mp hd] at hf
      cases hf
  once := by
    -- a call that has only been made has put nothing in
    have hsame (name : String) (j : Nat) :
        (r.step (.enter inquiry)).Created name j → r.Created name j := by
      rintro ⟨d, hd, hf, hn⟩
      rw [step, List.getElem?_append] at hd
      split at hd
      · exact ⟨d, hd, hf, hn⟩
      · rw [List.mem_singleton.mp (List.mem_of_getElem? hd)] at hf
        cases hf
    exact fun name j j' hj hj' => hk.once name j j' (hsame name j hj) (hsame name j' hj')
  users := by
    rw [step, List.countP_append]
    exact hk.users
  registrations := by
    rw [step, List.countP_append]
    exact hk.registrations

theorem Kept.step (hk : r.Kept initial) (step : RegistryStep) : (r.step step).Kept initial := by
  cases step with
  | enter inquiry => exact hk.enter inquiry
  | advance i => exact hk.advance i

theorem Kept.run (hk : r.Kept initial) (steps : List RegistryStep) : (r.run steps).Kept initial := by
  induction steps generalizing r with
  | nil => exact hk
  | cons step steps ih => exact ih (hk.step step)

theorem kept_start (hs : initial.Counted) : Kept initial ⟨initial, []⟩ where
  lived := fun _ hc => absurd hc List.not_mem_nil
  sharded := hs.sharded
  lasting := fun _ _ => id
  stored := fun _ hc => absurd hc List.not_mem_nil
  once := by
    rintro name i j ⟨c, hi, -⟩
    cases hi
  users := by simpa using hs.users
  registrations := by simpa using hs.registrations

theorem Kept.find?_step (hk : r.Kept initial) (step : RegistryStep)
    (hf : r.store.find? name = some password) : (r.step step).store.find? name = some password := by
  cases step with
  | enter inquiry => exact hf
  | advance i =>
    change (r.advance i).store.find? name = some password
    cases hi : r.calls[i]? with
    | none => rwa [advance_of_none hi]
    | some c =>
      rw [advance_of_some hi]
      dsimp only
      rcases (hk.lived c (List.mem_of_getElem? hi)).move_cases
        (r.held (r.store.shardOf c.inquiry.name)) r.store with hm | hm
      · rw [find?_of_keeps hm]
        exact hf
      · exact hm.find?_of_some hf

theorem Kept.find?_run (hk : r.Kept initial) (steps : List RegistryStep)
    (hf : r.store.find? name = some password) : (r.run steps).store.find? name = some password := by
  induction steps generalizing r with
  | nil => exact hf
  | cons step steps ih => exact ih (hk.step step) (hk.find?_step step hf)

theorem advance_last (s : Credentials) {calls : List Call} (hfree : ∀ d ∈ calls, d.stage.holds = false)
    (c : Call) : advance ⟨s, calls ++ [c]⟩ calls.length =
      ⟨(Call.alone (c, s)).2, calls ++ [(Call.alone (c, s)).1]⟩ := by
  have hget : (calls ++ [c])[calls.length]? = some c := List.getElem?_concat_length
  have hmove : ∀ i, i = s.shardOf c.inquiry.name →
      c.move (held ⟨s, calls ++ [c]⟩ i) s = c.move false s := by
    intro i hi
    -- a call that holds its shard is itself the one for which the shard is held
    cases hc : c.stage.holds with
    | true => exact Call.move_of_holds hc _ s
    | false =>
      have hheld : held ⟨s, calls ++ [c]⟩ i = false := by
        rw [held, List.any_eq_false]
        intro d hd
        rcases List.mem_append.mp hd with hd | hd
        · rw [hfree d hd]
          exact Bool.false_ne_true
        · rw [List.mem_singleton.mp hd, hc]
          exact Bool.false_ne_true
      rw [hheld]
  rw [advance_of_some hget, hmove _ rfl]
  dsimp only
  rw [List.set_append_right _ _ (Nat.le_refl _), Nat.sub_self]
  rfl

theorem run_last (s : Credentials) {calls : List Call} (hfree : ∀ d ∈ calls, d.stage.holds = false)
    (c : Call) (n : Nat) : run ⟨s, calls ++ [c]⟩ (List.replicate n (.advance calls.length)) =
      ⟨(Call.alone^[n] (c, s)).2, calls ++ [(Call.alone^[n] (c, s)).1]⟩ := by
  induction n generalizing s c with
  | zero => rfl
  | succ n ih =>
    rw [List.replicate_succ, run, List.foldl_cons, Function.iterate_succ_apply]
    have hstep := advance_last s hfree c
    rw [step, hstep]
    exact ih _ _

/-- What can be said of a store and the calls on it, at any time. -/
structure WriteOnce (initial : Credentials) (r : Registry) : Prop where
  once : ∀ (i j : Nat) (c d : Call), r.calls[i]? = some c → r.calls[j]? = some d →
    c.inquiry.isLogin = false → d.inquiry.isLogin = false → c.stage = .returned true →
    d.stage = .returned true → c.inquiry.name = d.inquiry.name → i = j
  creator : ∀ c ∈ r.calls, c.inquiry.isLogin = false → c.stage = .returned true →
    r.store.find? c.inquiry.name = some c.inquiry.password ∧ initial.find? c.inquiry.name = none
  lasting : ∀ name password steps, r.store.find? name = some password →
    (r.run steps).store.find? name = some password
  recorded : ∀ (i : Nat) (c d : Call), r.calls[i]? = some c → (r.advance i).calls[i]? = some d →
    (d.read = c.read ∨ d.read = some (r.store.find? c.inquiry.name)) ∧
      (d.found = c.found ∨ d.found = some (r.store.contains c.inquiry.name))
  taken : ∀ c ∈ r.calls, c.inquiry.isLogin = false →
    (∃ stored, c.read = some (some stored)) ∨ c.found = some true →
      c.stage = .returned false ∧ c.changed = false
  refused : ∀ c ∈ r.calls, c.stage = .returned false → c.changed = false
  login : ∀ c ∈ r.calls, c.inquiry.isLogin = true → c.changed = false ∧
    ∀ answer, c.stage = .returned answer → (answer = true ↔ c.inquiry.name ≠ "" ∧
      c.inquiry.password ≠ "" ∧ c.read = some (some c.inquiry.password))
  blank : ∀ c ∈ r.calls, ∀ name password login, c.inquiry = .verify name password login →
    name = "" ∨ password = "" → (c.stage = .entering ∨ c.stage = .returned false) ∧
      c.changed = false ∧ c.counted = false
  counters : (∀ c ∈ r.calls, c.stage.holds = false) →
    r.store.users = r.store.registrations ∧ r.store.users = .ofNat r.store.names.length
  names : r.store.names.Nodup ∧
    ∀ name, name ∈ r.store.names ↔ (r.store.find? name).isSome = true
  undisturbed : (∀ c ∈ r.calls, c.stage.holds = false) → ∀ inquiry,
    (r.run (.enter inquiry :: List.replicate 6 (.advance r.calls.length))).store =
        (inquiry.answer r.store).2 ∧
      ∃ c, (r.run (.enter inquiry :: List.replicate 6 (.advance r.calls.length))).calls =
        r.calls ++ [c] ∧ c.stage = .returned (inquiry.answer r.store).1

theorem Kept.created_of_returned (hk : r.Kept initial) (hi : r.calls[i]? = some c)
    (hl : c.inquiry.isLogin = false) (hs : c.stage = .returned true) :
    r.Created c.inquiry.name i :=
  ⟨c, hi, (hk.lived c (List.mem_of_getElem? hi)).found_of_returned hl hs, rfl⟩

theorem countP_eq_zero {p : CallStage → Bool} {calls : List Call}
    (hp : ∀ c ∈ calls, p c.stage = false) : calls.countP (fun c => p c.stage) = 0 := by
  rw [List.countP_eq_zero]
  intro c hc
  rw [hp c hc]
  exact Bool.false_ne_true

theorem owesUser_of_holds {stage : CallStage} (hs : stage.holds = false) : stage.owesUser = false := by
  cases stage with
  | countingUser => cases hs
  | _ => rfl

theorem Kept.counters (hk : r.Kept initial) (hfree : ∀ c ∈ r.calls, c.stage.holds = false) :
    r.store.users = r.store.registrations ∧ r.store.users = .ofNat r.store.names.length := by
  have husers := hk.users
  have hregistrations := hk.registrations
  rw [countP_eq_zero fun c hc => owesUser_of_holds (hfree c hc)] at husers
  rw [countP_eq_zero hfree] at hregistrations
  have hu := (UInt64.add_zero _).symm.trans husers
  have hr := (UInt64.add_zero _).symm.trans hregistrations
  exact ⟨hu.trans hr.symm, hu⟩

theorem recorded_advance (hi : r.calls[i]? = some c) (hd : (r.advance i).calls[i]? = some d) :
    (d.read = c.read ∨ d.read = some (r.store.find? c.inquiry.name)) ∧
      (d.found = c.found ∨ d.found = some (r.store.contains c.inquiry.name)) := by
  have hlt : i < r.calls.length := (List.getElem?_eq_some_iff.mp hi).1
  rw [advance_of_some hi] at hd
  dsimp only at hd
  rw [List.getElem?_set_self hlt] at hd
  cases hd
  exact Call.recorded_move _ r.store c

theorem run_enter (r : Registry) (hfree : ∀ c ∈ r.calls, c.stage.holds = false)
    (inquiry : Inquiry) (n : Nat) :
    r.run (.enter inquiry :: List.replicate n (.advance r.calls.length)) =
      ⟨(Call.alone^[n] (.start inquiry, r.store)).2,
        r.calls ++ [(Call.alone^[n] (.start inquiry, r.store)).1]⟩ :=
  run_last r.store hfree (.start inquiry) n

theorem undisturbed (r : Registry) (hfree : ∀ c ∈ r.calls, c.stage.holds = false)
    (inquiry : Inquiry) :
    (r.run (.enter inquiry :: List.replicate 6 (.advance r.calls.length))).store =
        (inquiry.answer r.store).2 ∧
      ∃ c, (r.run (.enter inquiry :: List.replicate 6 (.advance r.calls.length))).calls =
        r.calls ++ [c] ∧ c.stage = .returned (inquiry.answer r.store).1 := by
  obtain ⟨hstage, hstore⟩ := Call.alone_start inquiry r.store
  rw [run_enter r hfree]
  -- what the steps come to matters here, not what they are
  generalize Call.alone^[6] (.start inquiry, r.store) = x at hstage hstore
  exact ⟨hstore, x.1, rfl, hstage⟩

theorem Kept.writeOnce (hk : r.Kept initial) : r.WriteOnce initial where
  once := by
    intro i j c d hi hj hc hd hs hs' hn
    have hcreated := hk.created_of_returned hi hc hs
    rw [hn] at hcreated
    exact hk.once _ i j hcreated (hk.created_of_returned hj hd hs')
  creator := fun c hc hl hs => hk.stored c hc ((hk.lived c hc).found_of_returned hl hs)
  lasting := fun _ _ steps hf => hk.find?_run steps hf
  recorded := fun _ _ _ hi hd => recorded_advance hi hd
  taken := fun c hc hl hf => (hk.lived c hc).taken_of_found hl hf
  refused := fun c hc hs => (hk.lived c hc).changed_of_refused hs
  login := fun c hc hl => (hk.lived c hc).login hl
  blank := fun c hc _ _ _ hi hb => (hk.lived c hc).blank hi hb
  counters := hk.counters
  names := ⟨Credentials.nodup_names hk.sharded, fun _ => Credentials.mem_names_iff hk.sharded⟩
  undisturbed := r.undisturbed

/-- Whatever calls are made on a store, and however their steps fall, for every spread of the
names over the shards. -/
theorem run_writeOnce (shardOf : String → Fin shardCount) (users : List (String × String))
    (steps : List RegistryStep) :
    (run ⟨.ofUsers shardOf users, []⟩ steps).WriteOnce (.ofUsers shardOf users) :=
  ((kept_start (Credentials.counted_ofUsers shardOf users)).run steps).writeOnce

end Registry
end EventHttp
