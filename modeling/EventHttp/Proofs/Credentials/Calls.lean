import EventHttp.Proofs.Credentials.Names
import Mathlib.Logic.Function.Iterate

/-! Calls on one store side by side.  A call takes its steps one at a time, each of which looks
at one shard or changes one counter, so that a list of steps is an interleaving.  An insert holds
its shard until it has counted the name that it put there, and meanwhile nobody else gets at that
shard.  A registration reads first and inserts later; what happens in between it finds out when
it inserts. -/

namespace EventHttp

inductive Inquiry where
  | insert (name password : String)
  | verify (name password : String) (login : Bool)
  deriving DecidableEq, Repr

namespace Inquiry

def name : Inquiry → String
  | insert name _ | verify name _ _ => name

def password : Inquiry → String
  | insert _ password | verify _ password _ => password

def isLogin : Inquiry → Bool
  | insert _ _ => false
  | verify _ _ login => login

def answer (c : Credentials) : Inquiry → Bool × Credentials
  | insert name password => c.insert name password
  | verify name password login => c.verify name password login

end Inquiry

inductive CallStage where
  | entering
  | looking
  | reading
  | inserting
  | countingUser
  | countingRegistration
  | returned (answer : Bool)
  deriving DecidableEq, Repr

def CallStage.holds : CallStage → Bool
  | countingUser | countingRegistration => true
  | _ => false

def CallStage.owesUser : CallStage → Bool
  | countingUser => true
  | _ => false

structure Call where
  inquiry : Inquiry
  stage : CallStage
  read : Option (Option String)
  found : Option Bool
  changed : Bool
  counted : Bool
  deriving DecidableEq, Repr

def Credentials.counts (c : Credentials) : UInt64 × UInt64 × UInt64 :=
  (c.users, c.lookups, c.registrations)

namespace Call

def start (inquiry : Inquiry) : Call :=
  ⟨inquiry, .entering, none, none, false, false⟩

def move (held : Bool) (s : Credentials) (c : Call) : Call × Credentials :=
  match c.stage with
  | .entering =>
    match c.inquiry with
    | .insert _ _ => ({ c with stage := .inserting }, s)
    | .verify name password _ =>
      if name = "" ∨ password = "" then ({ c with stage := .returned false }, s)
      else ({ c with stage := .looking }, s)
  | .looking => ({ c with stage := .reading }, s.countLookup)
  | .reading =>
    if held then (c, s)
    else
      let stored := s.find? c.inquiry.name
      if c.inquiry.isLogin || stored.isSome then
        ({ c with
          read := some stored
          stage := .returned (c.inquiry.isLogin && stored == some c.inquiry.password) }, s)
      else ({ c with read := some stored, stage := .inserting }, s)
  | .inserting =>
    if held then (c, s)
    else if s.contains c.inquiry.name then
      ({ c with found := some true, stage := .returned false }, s)
    else
      ({ c with found := some false, stage := .countingUser },
        s.put c.inquiry.name c.inquiry.password)
  | .countingUser => ({ c with stage := .countingRegistration }, s.countUser)
  | .countingRegistration => ({ c with stage := .returned true }, s.countRegistration)
  | .returned _ => (c, s)

def noting (before after : Credentials) (c : Call) : Call :=
  { c with
    changed := c.changed || decide (after.shards ≠ before.shards)
    counted := c.counted || decide (after.counts ≠ before.counts) }

def ComesToInsert (read : Option (Option String)) : Inquiry → Prop
  | .insert _ _ => read = none
  | .verify name password login => ¬ (name = "" ∨ password = "") ∧ login = false ∧ read = some none

inductive Lived : Call → Prop
  | entering (inquiry : Inquiry) : Lived (start inquiry)
  | rejected {name password : String} (login : Bool) (he : name = "" ∨ password = "") :
    Lived ⟨.verify name password login, .returned false, none, none, false, false⟩
  | looking {name password : String} (login : Bool) (he : ¬ (name = "" ∨ password = "")) :
    Lived ⟨.verify name password login, .looking, none, none, false, false⟩
  | reading {name password : String} (login counted : Bool) (he : ¬ (name = "" ∨ password = "")) :
    Lived ⟨.verify name password login, .reading, none, none, false, counted⟩
  | answered {name password : String} {login : Bool} {stored : Option String} (counted : Bool)
    (he : ¬ (name = "" ∨ password = "")) (hs : (login || stored.isSome) = true) :
    Lived ⟨.verify name password login, .returned (login && stored == some password), some stored,
      none, false, counted⟩
  | inserting {inquiry : Inquiry} {read : Option (Option String)} (counted : Bool)
    (hi : ComesToInsert read inquiry) : Lived ⟨inquiry, .inserting, read, none, false, counted⟩
  | taken {inquiry : Inquiry} {read : Option (Option String)} (counted : Bool)
    (hi : ComesToInsert read inquiry) :
    Lived ⟨inquiry, .returned false, read, some true, false, counted⟩
  | created {inquiry : Inquiry} {read : Option (Option String)} {stage : CallStage}
    (changed counted : Bool) (hi : ComesToInsert read inquiry)
    (hs : stage.holds = true ∨ stage = .returned true) :
    Lived ⟨inquiry, stage, read, some false, changed, counted⟩

variable {c : Call} {s s' : Credentials} {held : Bool}

theorem noting_self (s : Credentials) (c : Call) : c.noting s s = c := by
  obtain ⟨inquiry, stage, read, found, changed, counted⟩ := c
  rw [noting, decide_eq_false (not_not_intro rfl), decide_eq_false (not_not_intro rfl),
    Bool.or_false, Bool.or_false]

theorem noting_of_shards (hs : s'.shards = s.shards) (c : Call) :
    c.noting s s' = { c with counted := c.counted || decide (s'.counts ≠ s.counts) } := by
  rw [noting, decide_eq_false (not_not_intro hs), Bool.or_false]

theorem Lived.noting_self (hl : c.Lived) (s : Credentials) : (c.noting s s).Lived := by
  rwa [Call.noting_self]

theorem Lived.move (hl : c.Lived) (held : Bool) (s : Credentials) :
    ((c.move held s).1.noting s (c.move held s).2).Lived := by
  cases hl with
  | entering inquiry =>
    cases inquiry with
    | insert name password =>
      have hi : ComesToInsert none (.insert name password) := rfl
      exact (Lived.inserting false hi).noting_self s
    | verify name password login =>
      unfold Call.move start
      dsimp only
      split
      · rename_i he
        exact (Lived.rejected login he).noting_self s
      · rename_i he
        exact (Lived.looking login he).noting_self s
  | rejected login he => exact (Lived.rejected login he).noting_self s
  | looking login he =>
    unfold Call.move
    have hsame : s.countLookup.shards = s.shards := rfl
    dsimp only
    rw [noting_of_shards hsame]
    exact .reading login _ he
  | reading login counted he =>
    unfold Call.move
    dsimp only
    split
    · exact (Lived.reading login counted he).noting_self s
    · split
      · rename_i hs
        exact (Lived.answered counted he hs).noting_self s
      · rename_i hs
        rw [Bool.or_eq_true, not_or, Bool.not_eq_true, Option.not_isSome_iff_eq_none] at hs
        refine (Lived.inserting counted ?_).noting_self s
        -- only a registration that has found nobody comes to insert
        exact ⟨he, hs.1, congrArg some hs.2⟩
  | answered counted he hs => exact (Lived.answered counted he hs).noting_self s
  | inserting counted hi =>
    unfold Call.move
    dsimp only
    split
    · exact (Lived.inserting counted hi).noting_self s
    · split
      · exact (Lived.taken counted hi).noting_self s
      · exact .created _ _ hi (Or.inl rfl)
  | taken counted hi => exact (Lived.taken counted hi).noting_self s
  | @created inquiry read stage changed counted hi hs =>
    cases stage with
    | countingUser =>
      unfold Call.move
      exact .created _ _ hi (Or.inl rfl)
    | countingRegistration =>
      unfold Call.move
      exact .created _ _ hi (Or.inr rfl)
    | returned answer => exact (Lived.created changed counted hi hs).noting_self s
    | _ => rcases hs with hs | hs <;> cases hs

theorem ComesToInsert.isLogin {read : Option (Option String)} {inquiry : Inquiry}
    (hi : ComesToInsert read inquiry) : inquiry.isLogin = false := by
  cases inquiry with
  | insert name password => rfl
  | verify name password login => exact hi.2.1

theorem ComesToInsert.read_ne {read : Option (Option String)} {inquiry : Inquiry}
    (hi : ComesToInsert read inquiry) (stored : String) : read ≠ some (some stored) := by
  rintro rfl
  cases inquiry with
  | insert name password => cases hi
  | verify name password login => cases hi.2.2

theorem ComesToInsert.not_blank {read : Option (Option String)} {name password : String}
    {login : Bool} (hi : ComesToInsert read (.verify name password login)) :
    ¬ (name = "" ∨ password = "") :=
  hi.1

theorem Lived.found_of_returned (hl : c.Lived) (hi : c.inquiry.isLogin = false)
    (hs : c.stage = .returned true) : c.found = some false := by
  cases hl with
  | answered counted he hstored =>
    cases hi
    cases hs
  | created changed counted hc hstage => rfl
  | _ => cases hs

theorem Lived.taken_of_found (hl : c.Lived) (hi : c.inquiry.isLogin = false)
    (hf : (∃ stored, c.read = some (some stored)) ∨ c.found = some true) :
    c.stage = .returned false ∧ c.changed = false := by
  cases hl with
  | answered counted he hs =>
    cases hi
    exact ⟨rfl, rfl⟩
  | taken counted hc => exact ⟨rfl, rfl⟩
  | inserting counted hc | created changed counted hc hs =>
    rcases hf with ⟨stored, hr⟩ | hf
    · exact absurd hr (hc.read_ne stored)
    · cases hf
  | _ => rcases hf with ⟨stored, hr⟩ | hf <;> contradiction

theorem Lived.changed_of_refused (hl : c.Lived) (hs : c.stage = .returned false) :
    c.changed = false := by
  cases hl with
  | created changed counted hc hstage =>
    dsimp only at hs
    subst hs
    rcases hstage with hstage | hstage <;> cases hstage
  | _ => rfl

theorem Lived.login (hl : c.Lived) (hi : c.inquiry.isLogin = true) :
    c.changed = false ∧ ∀ answer, c.stage = .returned answer →
      (answer = true ↔ c.inquiry.name ≠ "" ∧ c.inquiry.password ≠ "" ∧
        c.read = some (some c.inquiry.password)) := by
  cases hl with
  | rejected login he =>
    refine ⟨rfl, fun answer hs => ?_⟩
    cases hs
    exact iff_of_false Bool.false_ne_true fun hh => he.elim hh.1 hh.2.1
  | @answered name password login stored counted he hs =>
    cases hi
    refine ⟨rfl, fun answer hs => ?_⟩
    cases hs
    rw [Bool.true_and, beq_iff_eq]
    constructor
    · rintro rfl
      exact ⟨fun hn => he (Or.inl hn), fun hp => he (Or.inr hp), rfl⟩
    · exact fun hh => Option.some.inj hh.2.2
  | inserting counted hc | taken counted hc | created changed counted hc hs =>
    cases hi.symm.trans hc.isLogin
  | _ => exact ⟨rfl, fun answer hs => (nomatch hs)⟩

theorem Lived.blank (hl : c.Lived) {name password : String} {login : Bool}
    (hi : c.inquiry = .verify name password login) (hb : name = "" ∨ password = "") :
    (c.stage = .entering ∨ c.stage = .returned false) ∧ c.changed = false ∧ c.counted = false := by
  cases hl with
  | entering inquiry => exact ⟨Or.inl rfl, rfl, rfl⟩
  | rejected login he => exact ⟨Or.inr rfl, rfl, rfl⟩
  | looking login he | reading login counted he | answered counted he hs =>
    cases hi
    exact absurd hb he
  | inserting counted hc | taken counted hc | created changed counted hc hs =>
    cases hi
    exact absurd hb hc.not_blank

theorem recorded_move (held : Bool) (s : Credentials) (c : Call) :
    ((c.move held s).1.read = c.read ∨ (c.move held s).1.read = some (s.find? c.inquiry.name)) ∧
      ((c.move held s).1.found = c.found ∨
        (c.move held s).1.found = some (s.contains c.inquiry.name)) := by
  unfold move
  split
  · split
    · exact ⟨Or.inl rfl, Or.inl rfl⟩
    · split <;> exact ⟨Or.inl rfl, Or.inl rfl⟩
  · exact ⟨Or.inl rfl, Or.inl rfl⟩
  · split
    · exact ⟨Or.inl rfl, Or.inl rfl⟩
    · dsimp only
      split <;> exact ⟨Or.inr rfl, Or.inl rfl⟩
  · split
    · exact ⟨Or.inl rfl, Or.inl rfl⟩
    · split
      · rename_i ht
        exact ⟨Or.inl rfl, Or.inr (congrArg some ht.symm)⟩
      · rename_i hf
        exact ⟨Or.inl rfl, Or.inr (congrArg some (Bool.not_eq_true _ ▸ hf).symm)⟩
  · exact ⟨Or.inl rfl, Or.inl rfl⟩
  · exact ⟨Or.inl rfl, Or.inl rfl⟩
  · exact ⟨Or.inl rfl, Or.inl rfl⟩

theorem inquiry_move (held : Bool) (s : Credentials) (c : Call) :
    (c.move held s).1.inquiry = c.inquiry := by
  unfold move
  split
  · split
    · rfl
    · split <;> rfl
  · rfl
  · split
    · rfl
    · dsimp only
      split <;> rfl
  · split
    · rfl
    · split <;> rfl
  · rfl
  · rfl
  · rfl

structure Keeps (s : Credentials) (c : Call) (c' : Call) (s' : Credentials) : Prop where
  shardOf : s'.shardOf = s.shardOf
  shards : s'.shards = s.shards
  found : c'.found = some false ↔ c.found = some false
  users : s'.users + .ofNat c'.stage.owesUser.toNat = s.users + .ofNat c.stage.owesUser.toNat
  registrations :
    s'.registrations + .ofNat c'.stage.holds.toNat = s.registrations + .ofNat c.stage.holds.toNat

structure Creates (s : Credentials) (c : Call) (c' : Call) (s' : Credentials) : Prop where
  inserting : c.stage = .inserting
  free : s.find? c.inquiry.name = none
  store : s' = s.put c.inquiry.name c.inquiry.password
  found : c'.found = some false
  counting : c'.stage = .countingUser

theorem Keeps.refl (s : Credentials) (c : Call) : Keeps s c c s :=
  ⟨rfl, rfl, Iff.rfl, rfl, rfl⟩

theorem Lived.move_cases (hl : c.Lived) (held : Bool) (s : Credentials) :
    Keeps s c (c.move held s).1 (c.move held s).2 ∨ Creates s c (c.move held s).1 (c.move held s).2 := by
  cases hl with
  | entering inquiry =>
    cases inquiry with
    | insert name password => exact Or.inl ⟨rfl, rfl, Iff.rfl, rfl, rfl⟩
    | verify name password login =>
      unfold Call.move start
      dsimp only
      split <;> exact Or.inl ⟨rfl, rfl, Iff.rfl, rfl, rfl⟩
  | rejected login he => exact Or.inl (.refl s _)
  | looking login he => exact Or.inl ⟨rfl, rfl, Iff.rfl, rfl, rfl⟩
  | reading login counted he =>
    unfold Call.move
    dsimp only
    split
    · exact Or.inl (.refl s _)
    · split <;> exact Or.inl ⟨rfl, rfl, Iff.rfl, rfl, rfl⟩
  | answered counted he hs => exact Or.inl (.refl s _)
  | inserting counted hi =>
    unfold Call.move
    dsimp only
    split
    · exact Or.inl (.refl s _)
    · split
      · exact Or.inl ⟨rfl, rfl, ⟨nofun, nofun⟩, rfl, rfl⟩
      · rename_i hfree
        rw [Bool.not_eq_true, Credentials.contains_eq_false_iff] at hfree
        exact Or.inr ⟨rfl, hfree, rfl, rfl, rfl⟩
  | taken counted hi => exact Or.inl (.refl s _)
  | @created inquiry read stage changed counted hi hs =>
    cases stage with
    | countingUser =>
      refine Or.inl ⟨rfl, rfl, Iff.rfl, ?_, rfl⟩
      exact UInt64.add_zero _
    | countingRegistration =>
      refine Or.inl ⟨rfl, rfl, Iff.rfl, rfl, ?_⟩
      exact UInt64.add_zero _
    | returned answer => exact Or.inl (.refl s _)
    | _ => rcases hs with hs | hs <;> cases hs

theorem Creates.find?_of_some {c' : Call} (hc : Creates s c c' s') {key password : String}
    (hf : s.find? key = some password) : s'.find? key = some password := by
  rw [hc.store, Credentials.find?_put, if_neg]
  · exact hf
  · rintro rfl
    cases hc.free.symm.trans hf

def alone (x : Call × Credentials) : Call × Credentials :=
  ((x.1.move false x.2).1.noting x.2 (x.1.move false x.2).2, (x.1.move false x.2).2)

theorem move_of_holds (hc : c.stage.holds = true) (held : Bool) (s : Credentials) :
    c.move held s = c.move false s := by
  obtain ⟨inquiry, stage, read, found, changed, counted⟩ := c
  cases stage with
  | countingUser | countingRegistration => rfl
  | _ => cases hc

theorem alone_of_move {c' : Call} (hm : c.move false s = (c', s)) : alone (c, s) = (c', s) := by
  rw [alone]
  dsimp only
  rw [hm]
  exact congrArg (·, s) (noting_self s c')

theorem iterate_alone_returned (inquiry : Inquiry) (answer : Bool) (read : Option (Option String))
    (found : Option Bool) (changed counted : Bool) (s : Credentials) (n : Nat) :
    alone^[n] (⟨inquiry, .returned answer, read, found, changed, counted⟩, s) =
      (⟨inquiry, .returned answer, read, found, changed, counted⟩, s) :=
  Function.iterate_fixed (alone_of_move rfl) n

theorem alone_inserting (inquiry : Inquiry) (read : Option (Option String)) (found : Option Bool)
    (changed counted : Bool) (s : Credentials) (n : Nat) :
    (alone^[n + 3] (⟨inquiry, .inserting, read, found, changed, counted⟩, s)).1.stage =
        .returned (s.insert inquiry.name inquiry.password).1 ∧
      (alone^[n + 3] (⟨inquiry, .inserting, read, found, changed, counted⟩, s)).2 =
        (s.insert inquiry.name inquiry.password).2 := by
  rw [Credentials.insert_eq, Function.iterate_succ_apply]
  cases hc : s.contains inquiry.name with
  | true =>
    have hmove : move false s ⟨inquiry, .inserting, read, found, changed, counted⟩ =
        (⟨inquiry, .returned false, read, some true, changed, counted⟩, s) := by
      rw [move]
      dsimp only
      rw [hc, if_neg Bool.false_ne_true, if_pos rfl]
    rw [alone_of_move hmove, iterate_alone_returned]
    exact ⟨rfl, rfl⟩
  | false =>
    have hmove : move false s ⟨inquiry, .inserting, read, found, changed, counted⟩ =
        (⟨inquiry, .countingUser, read, some false, changed, counted⟩,
          s.put inquiry.name inquiry.password) := by
      rw [move]
      dsimp only
      rw [hc, if_neg Bool.false_ne_true, if_neg Bool.false_ne_true]
    rw [alone, hmove, Function.iterate_succ_apply, Function.iterate_succ_apply]
    change (alone^[n] (⟨_, .returned true, _, _, _, _⟩, _)).1.stage = _ ∧
      (alone^[n] (⟨_, .returned true, _, _, _, _⟩, _)).2 = _
    rw [iterate_alone_returned]
    exact ⟨rfl, rfl⟩

theorem alone_reading (name password : String) (login changed counted : Bool) (s : Credentials) :
    (alone^[4] (⟨.verify name password login, .reading, none, none, changed, counted⟩, s)).1.stage =
        .returned (match s.find? name with
          | some stored => login && stored == password
          | none => if login then false else (s.insert name password).1) ∧
      (alone^[4] (⟨.verify name password login, .reading, none, none, changed, counted⟩, s)).2 =
        match s.find? name with
          | some _ => s
          | none => if login then s else (s.insert name password).2 := by
  have hmove : move false s ⟨.verify name password login, .reading, none, none, changed, counted⟩ =
      (if login || (s.find? name).isSome then
        (⟨.verify name password login, .returned (login && s.find? name == some password),
          some (s.find? name), none, changed, counted⟩, s)
      else
        (⟨.verify name password login, .inserting, some (s.find? name), none, changed, counted⟩,
          s)) := by
    rw [move]
    rfl
  rw [Function.iterate_succ_apply]
  cases hf : s.find? name with
  | some stored =>
    rw [hf, Option.isSome_some, Bool.or_true, if_pos rfl] at hmove
    rw [alone_of_move hmove, iterate_alone_returned]
    exact ⟨rfl, rfl⟩
  | none =>
    rw [hf] at hmove
    cases login with
    | true =>
      rw [Bool.true_or, if_pos rfl] at hmove
      rw [alone_of_move hmove, iterate_alone_returned]
      exact ⟨rfl, rfl⟩
    | false =>
      rw [alone_of_move hmove]
      exact alone_inserting _ _ _ _ _ s 0

theorem alone_start (inquiry : Inquiry) (s : Credentials) :
    (alone^[6] (start inquiry, s)).1.stage = .returned (inquiry.answer s).1 ∧
      (alone^[6] (start inquiry, s)).2 = (inquiry.answer s).2 := by
  rw [Function.iterate_succ_apply]
  cases inquiry with
  | insert name password =>
    have hmove : move false s (start (.insert name password)) =
        (⟨.insert name password, .inserting, none, none, false, false⟩, s) := rfl
    rw [alone_of_move hmove]
    exact alone_inserting _ _ _ _ _ s 2
  | verify name password login =>
    rw [Inquiry.answer, Credentials.verify]
    by_cases he : name = "" ∨ password = ""
    · have hmove : move false s (start (.verify name password login)) =
          (⟨.verify name password login, .returned false, none, none, false, false⟩, s) := if_pos he
      rw [alone_of_move hmove, iterate_alone_returned, if_pos he]
      exact ⟨rfl, rfl⟩
    · have hmove : move false s (start (.verify name password login)) =
          (⟨.verify name password login, .looking, none, none, false, false⟩, s) := if_neg he
      obtain ⟨hstage, hstore⟩ := alone_reading name password login
        (false || decide (s.countLookup.shards ≠ s.shards))
        (false || decide (s.countLookup.counts ≠ s.counts)) s.countLookup
      have hread : s.countLookup.find? name = s.find? name := rfl
      rw [hread] at hstage hstore
      rw [alone_of_move hmove, Function.iterate_succ_apply, if_neg he, Credentials.password_eq]
      refine ⟨hstage.trans ?_, hstore.trans ?_⟩
      all_goals cases s.find? name with
      | some stored => rfl
      | none => cases login <;> rfl

end Call
end EventHttp
