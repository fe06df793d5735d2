import EventHttp.Site.Credentials
import Mathlib.Data.List.Nodup
import Mathlib.Data.List.Perm.Basic

/-! The names in a store, over all its shards.  Each is in the shard that is its own, and there
once, so the shards together are one map; and the counters count its names. -/

namespace EventHttp.Credentials

variable {c : Credentials} {name key password : String} {i : Fin shardCount}

def shard (c : Credentials) (i : Fin shardCount) : List (String × String) :=
  c.shards[i]

def put (c : Credentials) (name password : String) : Credentials :=
  let i := c.shardOf name
  { c with shards := c.shards.set i ((name, password) :: c.shard i) i.isLt }

def countUser (c : Credentials) : Credentials :=
  { c with users := c.users + 1 }

def countRegistration (c : Credentials) : Credentials :=
  { c with registrations := c.registrations + 1 }

def countLookup (c : Credentials) : Credentials :=
  { c with lookups := c.lookups + 1 }

theorem insert_eq (c : Credentials) (name password : String) :
    c.insert name password =
      if c.contains name then (false, c)
      else (true, (c.put name password).countUser.countRegistration) := rfl

theorem password_eq (c : Credentials) (name : String) :
    c.password name = (c.find? name, c.countLookup) := rfl

theorem contains_eq_false_iff : c.contains name = false ↔ c.find? name = none := by
  rw [contains, Option.isSome_eq_false_iff, Option.isNone_iff_eq_none]

theorem find?_eq (c : Credentials) (name : String) :
    c.find? name = (c.shard (c.shardOf name)).lookup name := rfl

def names (c : Credentials) : List String :=
  c.shards.toList.flatMap fun shard => shard.map (·.1)

structure Sharded (c : Credentials) : Prop where
  home : ∀ i, ∀ user ∈ c.shard i, c.shardOf user.1 = i
  distinct : ∀ i, ((c.shard i).map (·.1)).Nodup

theorem shard_put (c : Credentials) (name password : String) (i : Fin shardCount) :
    (c.put name password).shard i =
      if c.shardOf name = i then (name, password) :: c.shard i else c.shard i := by
  rw [shard, put]
  dsimp only
  rw [Fin.getElem_fin, Vector.getElem_set]
  by_cases h : c.shardOf name = i
  · subst h
    rw [if_pos rfl, if_pos rfl]
  · rw [if_neg fun he => h (Fin.ext he), if_neg h]
    rfl

theorem find?_put (c : Credentials) (name password key : String) :
    (c.put name password).find? key = if key = name then some password else c.find? key := by
  have hshard := shard_put c name password (c.shardOf key)
  have hhome : (c.put name password).shardOf key = c.shardOf key := rfl
  rw [find?_eq, hhome, hshard, find?_eq]
  by_cases hk : key = name
  · rw [if_pos hk, hk, if_pos rfl, List.lookup_cons_self]
  · rw [if_neg hk]
    split
    · rw [List.lookup_cons, beq_false_of_ne hk]
    · rfl

theorem lookup_isSome_iff {l : List (String × String)} :
    (l.lookup key).isSome = true ↔ key ∈ l.map (·.1) := by
  induction l with
  | nil => exact ⟨fun h => (nomatch h), fun h => (nomatch h)⟩
  | cons user rest ih =>
    obtain ⟨name, password⟩ := user
    rw [List.map_cons, List.mem_cons, List.lookup_cons]
    by_cases hk : key = name
    · rw [hk, beq_self_eq_true]
      exact iff_of_true rfl (Or.inl rfl)
    · rw [beq_false_of_ne hk]
      exact ih.trans (or_iff_right hk).symm

theorem mem_names_iff (hs : c.Sharded) : key ∈ c.names ↔ (c.find? key).isSome = true := by
  rw [find?_eq, lookup_isSome_iff, names, List.mem_flatMap]
  constructor
  · rintro ⟨shard, hshard, hk⟩
    obtain ⟨i, hi, rfl⟩ := List.mem_iff_getElem.mp hshard
    have hi' : i < shardCount := by rwa [Vector.length_toList] at hi
    rw [Vector.getElem_toList] at hk
    obtain ⟨user, huser, rfl⟩ := List.mem_map.mp hk
    rw [hs.home ⟨i, hi'⟩ user huser]
    exact hk
  · exact fun hk => ⟨_, Vector.mem_toList_iff.mpr (Vector.getElem_mem _), hk⟩

theorem nodup_names (hs : c.Sharded) : c.names.Nodup := by
  have hlt : ∀ {i}, i < c.shards.toList.length → i < shardCount := by
    intro i hi
    rwa [Vector.length_toList] at hi
  rw [names, List.nodup_flatMap]
  constructor
  · intro shard hshard
    obtain ⟨i, hi, rfl⟩ := List.mem_iff_getElem.mp hshard
    rw [Vector.getElem_toList]
    exact hs.distinct ⟨i, hlt hi⟩
  · rw [List.pairwise_iff_getElem]
    intro i j hi hj hij key hki hkj
    rw [Vector.getElem_toList] at hki hkj
    obtain ⟨user, huser, rfl⟩ := List.mem_map.mp hki
    obtain ⟨other, hother, hk⟩ := List.mem_map.mp hkj
    -- a name in two shards would have two shards of its own
    have hi' := hs.home ⟨i, hlt hi⟩ user huser
    have hj' := hs.home ⟨j, hlt hj⟩ other hother
    rw [hk, hi'] at hj'
    exact Nat.ne_of_lt hij (congrArg Fin.val hj')

theorem sharded_put (hs : c.Sharded) (hfree : c.find? name = none) (password : String) :
    (c.put name password).Sharded where
  home := by
    intro i user huser
    rw [shard_put] at huser
    change c.shardOf user.1 = i
    split at huser
    · rename_i hi
      rcases List.mem_cons.mp huser with rfl | huser
      · exact hi
      · exact hs.home i user huser
    · exact hs.home i user huser
  distinct := by
    intro i
    rw [shard_put]
    split
    · rename_i hi
      refine List.nodup_cons.mpr ⟨fun hk => ?_, hs.distinct i⟩
      rw [← hi, ← lookup_isSome_iff, ← find?_eq, hfree] at hk
      cases hk
    · exact hs.distinct i

theorem names_put_perm (c : Credentials) (name password : String) :
    (c.put name password).names.Perm (name :: c.names) := by
  have hi : (c.shardOf name).val < c.shards.toList.length := by
    rw [Vector.length_toList]
    exact (c.shardOf name).isLt
  have hsplit : c.shards.toList = c.shards.toList.take (c.shardOf name) ++
      c.shard (c.shardOf name) :: c.shards.toList.drop (c.shardOf name + 1) := by
    rw [shard, Fin.getElem_fin, ← Vector.getElem_toList hi, List.getElem_cons_drop,
      List.take_append_drop]
  have hset : (c.put name password).shards.toList = c.shards.toList.take (c.shardOf name) ++
      ((name, password) :: c.shard (c.shardOf name)) :: c.shards.toList.drop (c.shardOf name + 1) := by
    rw [put]
    dsimp only
    rw [Vector.toList_set, List.set_eq_take_append_cons_drop, if_pos hi]
  rw [names, hset, names]
  conv_rhs => rw [hsplit]
  rw [List.flatMap_append, List.flatMap_append, List.flatMap_cons, List.flatMap_cons, List.map_cons]
  exact List.perm_middle

theorem length_names_put (c : Credentials) (name password : String) :
    (c.put name password).names.length = c.names.length + 1 :=
  (names_put_perm c name password).length_eq

structure Counted (c : Credentials) : Prop where
  sharded : c.Sharded
  users : c.users = .ofNat c.names.length
  registrations : c.registrations = .ofNat c.names.length

theorem counted_empty (shardOf : String → Fin shardCount) : (empty shardOf).Counted := by
  have hshard (i : Fin shardCount) : (empty shardOf).shard i = [] := Vector.getElem_replicate i.isLt
  have hnames : (empty shardOf).names = [] := by
    rw [names, empty, Vector.toList_replicate, List.flatMap_eq_nil_iff]
    exact fun shard hshard => List.eq_of_mem_replicate hshard ▸ rfl
  refine ⟨⟨fun i user huser => ?_, fun i => ?_⟩, ?_, ?_⟩
  · rw [hshard] at huser
    cases huser
  · rw [hshard]
    exact List.nodup_nil
  · rw [hnames]
    rfl
  · rw [hnames]
    rfl

theorem Counted.insert (hc : c.Counted) (name password : String) :
    (c.insert name password).2.Counted := by
  rw [insert_eq]
  cases hfree : c.contains name with
  | true => exact hc
  | false =>
    have hsharded := sharded_put hc.sharded (contains_eq_false_iff.mp hfree) password
    have hlength : UInt64.ofNat (c.put name password).names.length = .ofNat c.names.length + 1 := by
      rw [length_names_put, UInt64.ofNat_add]
      rfl
    refine ⟨⟨hsharded.home, hsharded.distinct⟩, ?_, ?_⟩
    · exact (congrArg (· + 1) hc.users).trans hlength.symm
    · exact (congrArg (· + 1) hc.registrations).trans hlength.symm

theorem counted_ofUsers (shardOf : String → Fin shardCount) (users : List (String × String)) :
    (ofUsers shardOf users).Counted := by
  have key : ∀ (users : List (String × String)) (c : Credentials), c.Counted →
      (users.foldl (fun c user => (c.insert user.1 user.2).2) c).Counted := by
    intro users
    induction users with
    | nil => exact fun c hc => hc
    | cons user users ih => exact fun c hc => ih _ (hc.insert user.1 user.2)
  exact key users _ (counted_empty shardOf)

end EventHttp.Credentials
