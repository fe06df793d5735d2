import EventHttp.Proofs.CommandLine.Settings
import EventHttp.Proofs.Numeral

/-! How a command line is read.  Options that are written well are settings, made one after
another; the first argument that asks for something else, or that is wrong, ends the reading,
whatever follows it.  Read by position, the arguments are never looked at past their end. -/

namespace EventHttp

open Decimal

inductive Flag.Reads : Flag → String → Setting → Prop where
  | host (v : String) : Reads .host v (.host v)
  | port {v : String} {n : Nat} (h : Spells v.toList n) (hn : n < UInt16.size) :
      Reads .port v (.port n)
  | backlog {v : String} {n : Int} (h : SpellsSigned v.toList n) (hlow : -0x80000000 ≤ n)
      (hhigh : n ≤ 0x7FFFFFFF) : Reads .backlog v (.backlog n)
  | timeout {v : String} {ms : Nat} (h : Spells v.toList ms) (hms : ms < UInt64.size) :
      Reads .timeout v (.idleTimeout (if ms = 0 then none else some (ms * nanosPerMilli)))
  | workers {v : String} {n : Nat} (h : Spells v.toList n) (hpos : 0 < n) (hn : n < UInt64.size) :
      Reads .workers v (.workers n)
  | maxConnections {v : String} {n : Nat} (h : Spells v.toList n) (hn : n < UInt64.size) :
      Reads .maxConnections v (.maxConnections n)
  | resources (v : String) : Reads .resources v (.resources v)
  | logLevel (v : String) : Reads .logLevel v (.logLevel (some v))

inductive Flag.Switches : Flag → Setting → Prop where
  | levelTriggered : Switches .levelTriggered (.edgeTriggered false)
  | linger : Switches .linger (.linger true)
  | quiet : Switches .quiet (.quiet true)

inductive Flag.Refuses : Flag → String → UsageError → Prop where
  | port {v : String} (h : ¬ ∃ n, Spells v.toList n ∧ n < UInt16.size) :
      Refuses .port v (.invalidValue "port number" v)
  | backlog {v : String}
      (h : ¬ ∃ n, SpellsSigned v.toList n ∧ -0x80000000 ≤ n ∧ n ≤ 0x7FFFFFFF) :
      Refuses .backlog v (.invalidValue "backlog" v)
  | timeout {v : String} (h : ¬ ∃ n, Spells v.toList n ∧ n < UInt64.size) :
      Refuses .timeout v (.invalidValue "timeout" v)
  | workers {v : String} (h : ¬ ∃ n, Spells v.toList n ∧ n < UInt64.size) :
      Refuses .workers v (.invalidValue "worker count" v)
  | noWorkers {v : String} (h : Spells v.toList 0) : Refuses .workers v .noWorkers
  | maxConnections {v : String} (h : ¬ ∃ n, Spells v.toList n ∧ n < UInt64.size) :
      Refuses .maxConnections v (.invalidValue "connection limit" v)

inductive Setting.Writes : Setting → List String → Prop where
  | switch {arg : String} {flag : Flag} {s : Setting} (harg : Flag.ofArg? arg = some flag)
      (hs : flag.Switches s) : Writes s [arg]
  | valued {arg value : String} {flag : Flag} {s : Setting} (harg : Flag.ofArg? arg = some flag)
      (hs : flag.Reads value s) : Writes s [arg, value]

inductive WritesAll : List Setting → List String → Prop where
  | nil : WritesAll [] []
  | cons {s : Setting} {made : List Setting} {group args : List String} (hs : s.Writes group)
      (h : WritesAll made args) : WritesAll (s :: made) (group ++ args)

/-- The arguments at which the reading ends, and what it comes to, when others follow. -/
inductive Ends (follow : List String) : List String → Command → Prop where
  | help {arg : String} (harg : Flag.ofArg? arg = some .help) : Ends follow [arg] .help
  | version {arg : String} (harg : Flag.ofArg? arg = some .version) : Ends follow [arg] .version
  | unknown {arg : String} (harg : Flag.ofArg? arg = none) :
      Ends follow [arg] (.refused (.unknownArgument arg))
  | missing {arg : String} {flag : Flag} (harg : Flag.ofArg? arg = some flag)
      (htakes : flag.takesValue = true) (hlast : follow = []) :
      Ends follow [arg] (.refused (.missingValue arg))
  | refused {arg value : String} {flag : Flag} {e : UsageError}
      (harg : Flag.ofArg? arg = some flag) (he : flag.Refuses value e) :
      Ends follow [arg, value] (.refused e)

namespace Options

variable {o : Options} {what v : String} {flag : Flag} {s : Setting} {e : UsageError}

theorem number_of_spells {limit n : Nat} (h : Spells v.toList n) (hn : n < limit) :
    number what limit v = .ok n := by
  rw [number, unsigned?_eq_some_iff.mpr ⟨h, hn⟩]

theorem number_of_not_spells {limit : Nat} (h : ¬ ∃ n, Spells v.toList n ∧ n < limit) :
    number what limit v = .error (.invalidValue what v) := by
  have hnone : unsigned? limit v.toList = none :=
    Option.eq_none_iff_forall_ne_some.mpr fun n hn => h ⟨n, unsigned?_eq_some_iff.mp hn⟩
  rw [number, hnone]

theorem signedNumber_of_spells {low high n : Int} (h : SpellsSigned v.toList n) (hlow : low ≤ n)
    (hhigh : n ≤ high) : signedNumber what low high v = .ok n := by
  rw [signedNumber, signed?_eq_some_iff.mpr ⟨h, hlow, hhigh⟩]

theorem signedNumber_of_not_spells {low high : Int}
    (h : ¬ ∃ n, SpellsSigned v.toList n ∧ low ≤ n ∧ n ≤ high) :
    signedNumber what low high v = .error (.invalidValue what v) := by
  have hnone : signed? low high v.toList = none :=
    Option.eq_none_iff_forall_ne_some.mpr fun n hn => h ⟨n, signed?_eq_some_iff.mp hn⟩
  rw [signedNumber, hnone]

theorem setValue_of_reads (h : flag.Reads v s) (o : Options) :
    o.setValue flag v = .ok (s.apply o) := by
  cases h with
  | host | resources | logLevel => rfl
  | port h hn | timeout h hn | maxConnections h hn =>
    rw [setValue, number_of_spells h hn]
    rfl
  | backlog h hlow hhigh =>
    rw [setValue, signedNumber_of_spells h hlow hhigh]
    rfl
  | workers h hpos hn =>
    obtain ⟨n, rfl⟩ := Nat.exists_eq_succ_of_ne_zero (Nat.ne_of_gt hpos)
    rw [setValue, number_of_spells h hn]
    rfl

theorem setValue_of_refuses (h : flag.Refuses v e) (o : Options) :
    o.setValue flag v = .error e := by
  cases h with
  | port h | timeout h | maxConnections h =>
    rw [setValue, number_of_not_spells h]
    rfl
  | workers h => rw [setValue, number_of_not_spells h]
  | backlog h =>
    rw [setValue, signedNumber_of_not_spells h]
    rfl
  | noWorkers h =>
    rw [setValue, number_of_spells h (by decide)]
    rfl

theorem set_of_switches (h : flag.Switches s) (o : Options) : o.set flag = s.apply o := by
  cases h <;> rfl

end Options

namespace Flag

variable {flag : Flag} {arg v : String} {s : Setting} {e : UsageError}

theorem Reads.takesValue (h : flag.Reads v s) : flag.takesValue = true := by
  cases h <;> rfl

theorem Refuses.takesValue (h : flag.Refuses v e) : flag.takesValue = true := by
  cases h <;> rfl

theorem exists_of_limit {limit : Nat}
    (hread : ∀ n, Spells v.toList n → n < limit → (∃ s, flag.Reads v s) ∨ ∃ e, flag.Refuses v e)
    (hrefuse : (¬ ∃ n, Spells v.toList n ∧ n < limit) → ∃ e, flag.Refuses v e) :
    (∃ s, flag.Reads v s) ∨ ∃ e, flag.Refuses v e := by
  by_cases hn : ∃ n, Spells v.toList n ∧ n < limit
  · obtain ⟨n, hs, hn⟩ := hn
    exact hread n hs hn
  · exact Or.inr (hrefuse hn)

theorem exists_reads_or_refuses (h : flag.takesValue = true) (v : String) :
    (∃ s, flag.Reads v s) ∨ ∃ e, flag.Refuses v e := by
  cases flag with
  | host => exact Or.inl ⟨_, .host v⟩
  | resources => exact Or.inl ⟨_, .resources v⟩
  | logLevel => exact Or.inl ⟨_, .logLevel v⟩
  | port =>
    exact exists_of_limit (fun n hs hn => Or.inl ⟨_, .port hs hn⟩) fun hn => ⟨_, .port hn⟩
  | timeout =>
    exact exists_of_limit (fun n hs hn => Or.inl ⟨_, .timeout hs hn⟩) fun hn => ⟨_, .timeout hn⟩
  | maxConnections =>
    exact exists_of_limit (fun n hs hn => Or.inl ⟨_, .maxConnections hs hn⟩)
      fun hn => ⟨_, .maxConnections hn⟩
  | workers =>
    refine exists_of_limit (fun n hs hn => ?_) fun hn => ⟨_, .workers hn⟩
    rcases Nat.eq_zero_or_pos n with rfl | hpos
    · exact Or.inr ⟨_, .noWorkers hs⟩
    · exact Or.inl ⟨_, .workers hs hpos hn⟩
  | backlog =>
    by_cases hn : ∃ n, SpellsSigned v.toList n ∧ -0x80000000 ≤ n ∧ n ≤ 0x7FFFFFFF
    · obtain ⟨n, hs, hlow, hhigh⟩ := hn
      exact Or.inl ⟨_, .backlog hs hlow hhigh⟩
    · exact Or.inr ⟨_, .backlog hn⟩
  | levelTriggered | linger | quiet | help | version => cases h

end Flag

theorem exists_writes_or_ends (arg : String) (rest : List String) :
    (∃ s group left, Setting.Writes s group ∧ arg :: rest = group ++ left) ∨
      ∃ first follow c, Ends follow first c ∧ arg :: rest = first ++ follow := by
  cases harg : Flag.ofArg? arg with
  | none => exact Or.inr ⟨_, rest, _, .unknown harg, rfl⟩
  | some flag =>
    by_cases htakes : flag.takesValue = true
    · cases rest with
      | nil => exact Or.inr ⟨_, [], _, .missing harg htakes rfl, rfl⟩
      | cons value rest =>
        rcases Flag.exists_reads_or_refuses htakes value with ⟨s, hs⟩ | ⟨e, he⟩
        · exact Or.inl ⟨s, _, rest, .valued harg hs, rfl⟩
        · exact Or.inr ⟨_, rest, _, .refused harg he, rfl⟩
    · cases flag with
      | levelTriggered => exact Or.inl ⟨_, _, rest, .switch harg .levelTriggered, rfl⟩
      | linger => exact Or.inl ⟨_, _, rest, .switch harg .linger, rfl⟩
      | quiet => exact Or.inl ⟨_, _, rest, .switch harg .quiet, rfl⟩
      | help => exact Or.inr ⟨_, rest, _, .help harg, rfl⟩
      | version => exact Or.inr ⟨_, rest, _, .version harg, rfl⟩
      | _ => exact (htakes rfl).elim

theorem Setting.Writes.ne_nil {s : Setting} {group : List String} (h : s.Writes group) :
    group ≠ [] := by
  cases h <;> exact List.cons_ne_nil _ _

theorem exists_writesAll (args : List String) :
    (∃ made, WritesAll made args) ∨ ∃ made seen first follow c, WritesAll made seen ∧
      Ends follow first c ∧ args = seen ++ first ++ follow := by
  induction hn : args.length using Nat.strongRecOn generalizing args with
  | ind n ih =>
    cases args with
    | nil => exact Or.inl ⟨[], .nil⟩
    | cons arg rest =>
      rcases exists_writes_or_ends arg rest with ⟨s, group, left, hs, he⟩ | ⟨first, follow, c, hc, he⟩
      · have hpos := List.length_pos_iff.mpr hs.ne_nil
        have hlength := congrArg List.length he
        rw [List.length_append] at hlength
        rcases ih left.length (by omega) left rfl with
          ⟨made, hmade⟩ | ⟨made, seen, first, follow, c, hmade, hc, hleft⟩
        · exact Or.inl ⟨s :: made, he ▸ WritesAll.cons hs hmade⟩
        · refine Or.inr ⟨_, _, first, follow, c, .cons hs hmade, hc, ?_⟩
          rw [he, hleft, List.append_assoc, List.append_assoc, List.append_assoc]
      · exact Or.inr ⟨[], [], first, follow, c, .nil, hc, he⟩

namespace Command

variable {o : Options} {arg : String} {flag : Flag} {s : Setting} {made : List Setting}
  {group args seen first follow : List String} {c : Command}

theorem ofArgs_of_takesValue (harg : Flag.ofArg? arg = some flag) (h : flag.takesValue = true)
    (o : Options) (rest : List String) :
    ofArgs o (arg :: rest) =
      match rest with
      | [] => .refused (.missingValue arg)
      | value :: rest =>
        match o.setValue flag value with
        | .error e => .refused e
        | .ok o => ofArgs o rest := by
  rw [ofArgs, harg]
  cases flag with
  | levelTriggered | linger | quiet | help | version => cases h
  | _ => rfl

theorem ofArgs_of_writes (h : s.Writes group) (o : Options) (left : List String) :
    ofArgs o (group ++ left) = ofArgs (s.apply o) left := by
  cases h with
  | switch harg hs =>
    rw [List.singleton_append, ofArgs, harg, ← Options.set_of_switches hs]
    cases hs <;> rfl
  | valued harg hs =>
    show ofArgs o (_ :: _ :: left) = _
    rw [ofArgs_of_takesValue harg hs.takesValue]
    dsimp only
    rw [Options.setValue_of_reads hs]

theorem ofArgs_of_ends (h : Ends follow first c) (o : Options) : ofArgs o (first ++ follow) = c := by
  cases h with
  | help harg | version harg | unknown harg => rw [List.singleton_append, ofArgs, harg]
  | missing harg htakes hlast =>
    subst hlast
    exact ofArgs_of_takesValue harg htakes o []
  | refused harg he =>
    show ofArgs o (_ :: _ :: follow) = _
    rw [ofArgs_of_takesValue harg he.takesValue]
    dsimp only
    rw [Options.setValue_of_refuses he]

theorem ofArgs_of_writesAll (h : WritesAll made args) (o : Options) (left : List String) :
    ofArgs o (args ++ left) = ofArgs (o.override made) left := by
  induction h generalizing o with
  | nil => rfl
  | cons hs _ ih =>
    rw [List.append_assoc, ofArgs_of_writes hs, ih]
    rfl

/-- Reading by position, from place `i` on.  It gives nothing when it looks past the end; else it
tells what it comes to, and where. -/
def walk (argv : List String) (o : Options) (i : Nat) : Option (Command × Nat) :=
  if i < argv.length then
    match argv[i]? with
    | none => none
    | some arg =>
      match Flag.ofArg? arg with
      | none => some (.refused (.unknownArgument arg), i)
      | some .help => some (.help, i)
      | some .version => some (.version, i)
      | some flag =>
        if flag.takesValue then
          match argv[i + 1]? with
          | none => some (.refused (.missingValue arg), i)
          | some value =>
            match o.setValue flag value with
            | .error e => some (.refused e, i)
            | .ok o => walk argv o (i + 2)
        else walk argv (o.set flag) (i + 1)
  else some (.serve o, i)
termination_by argv.length - i

variable {argv left : List String} {i : Nat}

theorem getElem?_of_drop_eq (h : argv.drop i = args) (k : Nat) : argv[i + k]? = args[k]? := by
  rw [← h, List.getElem?_drop]

theorem lt_length_of_drop_eq (h : argv.drop i = arg :: args) : i < argv.length := by
  refine Nat.lt_of_not_le fun hle => ?_
  rw [List.drop_of_length_le hle] at h
  cases h

theorem walk_of_takesValue (hdrop : argv.drop i = arg :: args)
    (harg : Flag.ofArg? arg = some flag) (h : flag.takesValue = true) (o : Options) :
    walk argv o i =
      match args[0]? with
      | none => some (.refused (.missingValue arg), i)
      | some value =>
        match o.setValue flag value with
        | .error e => some (.refused e, i)
        | .ok o => walk argv o (i + 2) := by
  have hfirst : argv[i]? = some arg := getElem?_of_drop_eq hdrop 0
  have hsecond : argv[i + 1]? = args[0]? := getElem?_of_drop_eq hdrop 1
  rw [walk, if_pos (lt_length_of_drop_eq hdrop), hfirst]
  dsimp only
  rw [harg, hsecond]
  cases flag with
  | levelTriggered | linger | quiet | help | version => cases h
  | _ => rfl

theorem walk_of_writes (h : s.Writes group) (hdrop : argv.drop i = group ++ left) (o : Options) :
    walk argv o i = walk argv (s.apply o) (i + group.length) := by
  cases h with
  | switch harg hs =>
    have hfirst : argv[i]? = some _ := getElem?_of_drop_eq hdrop 0
    rw [walk, if_pos (lt_length_of_drop_eq hdrop), hfirst]
    dsimp only
    rw [harg, ← Options.set_of_switches hs]
    cases hs <;> rfl
  | valued harg hs =>
    rw [walk_of_takesValue hdrop harg hs.takesValue]
    show (match o.setValue _ _ with | .error e => _ | .ok o => _) = _
    rw [Options.setValue_of_reads hs]
    rfl

theorem walk_of_ends (h : Ends follow first c) (hdrop : argv.drop i = first ++ follow)
    (o : Options) : walk argv o i = some (c, i) := by
  cases h with
  | help harg | version harg | unknown harg =>
    have hfirst : argv[i]? = some _ := getElem?_of_drop_eq hdrop 0
    rw [walk, if_pos (lt_length_of_drop_eq hdrop), hfirst]
    dsimp only
    rw [harg]
  | missing harg htakes hlast =>
    subst hlast
    exact walk_of_takesValue hdrop harg htakes o
  | refused harg he =>
    rw [walk_of_takesValue hdrop harg he.takesValue]
    show (match o.setValue _ _ with | .error e => _ | .ok o => _) = _
    rw [Options.setValue_of_refuses he]

theorem walk_of_writesAll (h : WritesAll made args) (hdrop : argv.drop i = args ++ left)
    (o : Options) : walk argv o i = walk argv (o.override made) (i + args.length) := by
  induction h generalizing o i with
  | nil => rfl
  | @cons s made group args hs _ ih =>
    rw [List.append_assoc] at hdrop
    have hnext : argv.drop (i + group.length) = args ++ left := by
      rw [← List.drop_drop, hdrop, List.drop_left]
    rw [walk_of_writes hs hdrop, ih hnext, List.length_append, Nat.add_assoc]
    rfl

theorem walk_length (argv : List String) (o : Options) :
    walk argv o argv.length = some (.serve o, argv.length) := by
  rw [walk, if_neg (Nat.lt_irrefl _)]

/-- What the reading of a command line comes to, on top of some options. -/
structure LastWins (network : Network) (o : Options) : Prop where
  serves : ∀ {made args}, WritesAll made args → ofArgs o args = .serve (o.override made)
  last : ∀ made, (o.override made).settings = o.settings.map (Setting.last made)
  reordered : ∀ {made made' args args'}, WritesAll made args → WritesAll made' args' →
    (∀ flag, made.filter (·.flag = flag) = made'.filter (·.flag = flag)) →
    ofArgs o args = ofArgs o args'
  covers : ∀ args, (∃ made, WritesAll made args) ∨ ∃ made seen first follow c,
    WritesAll made seen ∧ Ends follow first c ∧ args = seen ++ first ++ follow
  ends : ∀ {made seen first follow c}, WritesAll made seen → Ends follow first c →
    ofArgs o (seen ++ first ++ follow) = c
  status : ∀ {first follow c}, Ends follow first c →
    (Transcript.ofCommand network c).served = false ∧
      (Transcript.ofCommand network c).code = if c = .help ∨ c = .version then 0 else 1
  inBounds : ∀ program args, ∃ place, walk (program :: args) o 1 = some (ofArgs o args, place) ∧
    place ≤ args.length + 1 ∧ ∀ made, WritesAll made args → place = args.length + 1

theorem ofArgs_serve (h : WritesAll made args) (o : Options) :
    ofArgs o args = .serve (o.override made) := by
  have hall := ofArgs_of_writesAll h o []
  rwa [List.append_nil] at hall

theorem ofArgs_ends (h : WritesAll made seen) (hc : Ends follow first c) (o : Options) :
    ofArgs o (seen ++ first ++ follow) = c := by
  rw [List.append_assoc, ofArgs_of_writesAll h, ofArgs_of_ends hc]

theorem status_of_ends (h : Ends follow first c) (network : Network) :
    (Transcript.ofCommand network c).served = false ∧
      (Transcript.ofCommand network c).code = if c = .help ∨ c = .version then 0 else 1 := by
  cases h with
  | refused harg he => cases he <;> exact ⟨rfl, rfl⟩
  | _ => exact ⟨rfl, rfl⟩

theorem walk_inBounds (o : Options) (program : String) (args : List String) :
    ∃ place, walk (program :: args) o 1 = some (ofArgs o args, place) ∧
      place ≤ args.length + 1 ∧ ∀ made, WritesAll made args → place = args.length + 1 := by
  rcases exists_writesAll args with ⟨made, h⟩ | ⟨made, seen, first, follow, c, h, hc, rfl⟩
  · have hdrop : (program :: args).drop 1 = args ++ [] := (List.append_nil args).symm
    refine ⟨args.length + 1, ?_, Nat.le_refl _, fun _ _ => rfl⟩
    rw [ofArgs_serve h, walk_of_writesAll h hdrop, Nat.add_comm]
    exact walk_length (program :: args) _
  · have hdrop : (program :: (seen ++ first ++ follow)).drop 1 = seen ++ (first ++ follow) :=
      List.append_assoc seen first follow
    have hnext : (program :: (seen ++ first ++ follow)).drop (1 + seen.length) = first ++ follow := by
      rw [← List.drop_drop, hdrop, List.drop_left]
    refine ⟨1 + seen.length, ?_, ?_, fun made' h' => ?_⟩
    · rw [ofArgs_ends h hc, walk_of_writesAll h hdrop, walk_of_ends hc hnext]
    · rw [List.length_append, List.length_append]
      omega
    · -- what ends the reading is not an option, so not all arguments are options
      have hserve := ofArgs_serve h' o
      rw [ofArgs_ends h hc] at hserve
      subst hserve
      cases hc

theorem ofArgs_lastWins (network : Network) (o : Options) : LastWins network o where
  serves h := ofArgs_serve h o
  last := Options.settings_override o
  reordered h h' hsame := by
    rw [ofArgs_serve h, ofArgs_serve h', Options.override_congr hsame]
  covers := exists_writesAll
  ends h hc := ofArgs_ends h hc o
  status hc := status_of_ends hc network
  inBounds := walk_inBounds o

example (o : Options) : ofArgs o ["--host", "--help", "--linger", "-h", "::"] =
    .serve { o with config.host := "::", config.linger := true } := by
  rfl

end Command
end EventHttp
