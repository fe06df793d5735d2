import EventHttp.Proofs.Parser.Reader
import Mathlib.Data.List.Pairwise

/-! Of the lines of a head that have one name, the last counts, however it is spelled.  The fields
that a parser keeps have no two names that differ only in case; so a name stands for one of them
at most, in whatever order they are looked through. -/

namespace EventHttp

namespace Headers

def Distinct (h : Headers) : Prop :=
  h.fields.Pairwise fun f g => caselessEq f.1 g.1 = false

variable {h : Headers}

theorem differ_comm {f g : String × String} (hd : caselessEq f.1 g.1 = false) :
    caselessEq g.1 f.1 = false := by
  rwa [caselessEq_comm]

theorem Distinct.put (hd : h.Distinct) (name value : String) : (h.put name value).Distinct := by
  have hkept : (h.fields.filter fun f => !caselessEq f.1 name).Pairwise
      fun f g => caselessEq f.1 g.1 = false := hd.filter _
  refine List.pairwise_append.mpr ⟨hkept, List.pairwise_singleton _ _, ?_⟩
  intro f hf g hg
  obtain rfl := List.mem_singleton.mp hg
  simpa using (List.mem_filter.mp hf).2

theorem distinct_putAll (hd : h.Distinct) (fields : List (String × String)) :
    (h.putAll fields).Distinct := by
  induction fields generalizing h with
  | nil => exact hd
  | cons f fields ih => exact ih (hd.put f.1 f.2)

theorem Distinct.eq_of_mem (hd : h.Distinct) {f g : String × String} (hf : f ∈ h.fields)
    (hg : g ∈ h.fields) (hn : caselessEq f.1 g.1 = true) : f = g := by
  have hsymm : Std.Symm fun f g : String × String => caselessEq f.1 g.1 = false :=
    ⟨fun _ _ => differ_comm⟩
  by_contra hne
  cases hn.symm.trans (List.Pairwise.forall hd hf hg hne)

theorem Distinct.get?_eq_some_iff (hd : h.Distinct) {name value : String} :
    h.get? name = some value ↔ ∃ f ∈ h.fields, caselessEq f.1 name = true ∧ f.2 = value := by
  constructor
  · intro hget
    unfold get? at hget
    split at hget
    · rename_i f hf
      obtain rfl := Option.some.inj hget
      have hname : f.1 = name := by simpa using List.find?_some hf
      exact ⟨f, List.mem_of_find?_eq_some hf, by simp [hname], rfl⟩
    · obtain ⟨f, hf, rfl⟩ := Option.map_eq_some_iff.mp hget
      exact ⟨f, List.mem_of_find?_eq_some hf, by simpa using List.find?_some hf, rfl⟩
  · rintro ⟨f, hf, hname, rfl⟩
    have honly (g : String × String) (hg : g ∈ h.fields) (hgn : caselessEq g.1 name = true) :
        g = f := by
      refine hd.eq_of_mem hg hf ?_
      rw [caselessEq_iff] at hname hgn ⊢
      exact hgn.trans hname.symm
    unfold get?
    split
    · rename_i g hg
      have hgn : g.1 = name := by simpa using List.find?_some hg
      rw [honly g (List.mem_of_find?_eq_some hg) (by simp [hgn])]
    · cases hfind : h.fields.find? fun f => caselessEq f.1 name with
      | none => exact absurd hname (by simpa using List.find?_eq_none.mp hfind f hf)
      | some g =>
        have hgn : caselessEq g.1 name = true := by simpa using List.find?_some hfind
        rw [honly g (List.mem_of_find?_eq_some hfind) hgn]
        rfl

theorem Distinct.of_perm (hd : h.Distinct) {entries : List (String × String)}
    (hp : h.fields.Perm entries) : Distinct ⟨entries⟩ :=
  (hp.pairwise_iff differ_comm).mp hd

theorem Distinct.get?_of_perm (hd : h.Distinct) {entries : List (String × String)}
    (hp : h.fields.Perm entries) (name : String) : get? ⟨entries⟩ name = h.get? name := by
  ext value
  rw [(hd.of_perm hp).get?_eq_some_iff, hd.get?_eq_some_iff]
  simp [hp.mem_iff]

structure LastCounts (lines : List String) (h : Headers) : Prop where
  distinct : h.Distinct
  get? : ∀ name, h.get? name = last? (lines.map fieldOf) name
  length : ∀ n, h.contentLength = .ok n ↔
    ∃ value, last? (lines.map fieldOf) "Content-Length" = some value ∧
      Decimal.Spells (Blank.trim value.toList) n ∧ n < 2 ^ 64
  keepAlive : ∀ version, h.askKeepAlive version = true ↔ version = "1.1" ∧
    ∃ value, last? (lines.map fieldOf) "Connection" = some value ∧
      caselessEq (String.ofList (Blank.trim value.toList)) "keep-alive" = true

theorem lastCounts_of_perm (lines : List String) {entries : List (String × String)}
    (hp : (empty.putAll (lines.map fieldOf)).fields.Perm entries) : LastCounts lines ⟨entries⟩ := by
  have hd : (empty.putAll (lines.map fieldOf)).Distinct := distinct_putAll .nil _
  have hget (name : String) : get? ⟨entries⟩ name = last? (lines.map fieldOf) name := by
    rw [hd.get?_of_perm hp, get?_putAll_empty]
  refine ⟨hd.of_perm hp, hget, fun n => ?_, fun version => ?_⟩
  · have hlength : contentLength ⟨entries⟩ = (empty.putAll (lines.map fieldOf)).contentLength := by
      rw [contentLength, contentLength, hd.get?_of_perm hp]
    rw [hlength]
    exact contentLength_putAll_eq_ok_iff
  · rw [askKeepAlive, hget]
    cases last? (lines.map fieldOf) "Connection" with
    | none => simp
    | some value => simp

end Headers

open RequestText (HeaderLine)

/-- A reader, with the lines of a head that its parser has accepted since it was new. -/
structure Noted where
  reader : Reader
  lines : List String

namespace Noted

def start (capacity : Nat) : Noted :=
  ⟨.start capacity, []⟩

def step (n : Noted) (m : ReaderMove) : Noted where
  reader := n.reader.step m
  lines :=
    match m with
    | .buffer _ => n.lines
    | .parse => n.lines ++ n.reader.parser.accepts n.reader.buffer.unread
    | .take => if n.reader.parser.takeRequest.1.isSome then [] else n.lines
    | .reset => []

def run (n : Noted) (moves : List ReaderMove) : Noted :=
  moves.foldl step n

variable {n : Noted}

structure Kept (n : Noted) : Prop where
  fields : n.reader.parser.fields = Headers.empty.putAll (n.lines.map Headers.fieldOf)
  lines : ∀ line ∈ n.lines, HeaderLine line
  framed : n.reader.parser.Framed

theorem kept_new (b : Buffer) : Kept ⟨⟨.start, b⟩, []⟩ :=
  ⟨rfl, (fun _ hline => nomatch hline), trivial⟩

theorem Kept.parse (hn : n.Kept) : (n.step .parse).Kept where
  fields := by
    have hread := n.reader.parser.fields_read n.reader.buffer.unread
    rw [hn.fields] at hread
    refine hread.trans ?_
    rw [step, List.map_append, Headers.putAll, Headers.putAll, Headers.putAll, List.foldl_append]
  lines := by
    intro line hline
    rcases List.mem_append.mp hline with hold | hnew
    · exact hn.lines line hold
    · exact Parser.headerLine_of_mem_accepts hnew
  framed := hn.framed.read _

theorem Kept.take (hn : n.Kept) : (n.step .take).Kept := by
  rcases n.reader.parser.takeRequest_cases with ⟨_, _, _, _, -, -, htake⟩ | htake
  · have hnew : n.step .take = ⟨⟨.start, n.reader.buffer⟩, []⟩ := by
      simp [step, Reader.step, htake]
    rw [hnew]
    exact kept_new n.reader.buffer
  · have hsame : n.step .take = n := by simp [step, Reader.step, htake]
    rw [hsame]
    exact hn

theorem Kept.step (hn : n.Kept) (m : ReaderMove) : (n.step m).Kept := by
  cases m with
  | buffer op => exact ⟨hn.fields, hn.lines, hn.framed⟩
  | parse => exact hn.parse
  | take => exact hn.take
  | reset => exact kept_new n.reader.buffer

theorem Kept.run (hn : n.Kept) (moves : List ReaderMove) : (n.run moves).Kept := by
  induction moves generalizing n with
  | nil => exact hn
  | cons m moves ih => exact ih (hn.step m)

/-- What the parser tells, and what the request tells that is taken off it: of the lines of one
name the last counts, in whatever order the fields are looked through. -/
structure Tells (n : Noted) : Prop where
  lines : ∀ line ∈ n.lines, HeaderLine line
  header : ∀ name, n.reader.parser.header? name =
    Headers.last? (n.lines.map Headers.fieldOf) name
  fields : ∀ entries, n.reader.parser.fields.fields.Perm entries →
    Headers.LastCounts n.lines ⟨entries⟩
  request : ∀ r p, n.reader.parser.takeRequest = (some r, p) →
    (∀ entries, r.headers.fields.Perm entries → Headers.LastCounts n.lines ⟨entries⟩) ∧
      r.keepAlive = n.reader.parser.keepAlive ∧ (r.method = .get → r.body = []) ∧
      (r.method = .post → r.headers.contentLength = .ok r.body.length)

theorem Kept.tells (hn : n.Kept) : n.Tells where
  lines := hn.lines
  header := by
    intro name
    rw [Parser.header?, hn.fields, Headers.get?_putAll_empty]
  fields := by
    intro entries hp
    rw [hn.fields] at hp
    exact Headers.lastCounts_of_perm n.lines hp
  request := by
    intro r p htake
    have hfields := hn.fields
    have hframed := hn.framed
    rcases n.reader.parser.takeRequest_cases with ⟨l, h, content, method, hdone, hm, hsome⟩ | hnone
    · obtain ⟨hr, -⟩ := Prod.mk.inj (htake.symm.trans hsome)
      obtain rfl := Option.some.inj hr
      rw [hdone] at hfields hframed ⊢
      refine ⟨fun entries hp => ?_, rfl, fun hget => ?_, fun hpost => ?_⟩
      · have hp : h.fields.Perm entries := hp
        rw [show h = Headers.empty.putAll (n.lines.map Headers.fieldOf) from hfields] at hp
        exact Headers.lastCounts_of_perm n.lines hp
      · rcases hframed with ⟨-, hnil⟩ | ⟨hpost, -⟩
        · exact hnil
        · cases hget.symm.trans (Option.some.inj (hm.symm.trans hpost))
      · rcases hframed with ⟨hget, -⟩ | ⟨-, hlength⟩
        · cases hpost.symm.trans (Option.some.inj (hm.symm.trans hget))
        · exact hlength
    · cases (Prod.mk.inj (htake.symm.trans hnone)).1

/-- However a parser is used, of the lines of one name that it has accepted the last counts. -/
theorem run_lastCounts (capacity : Nat) (moves : List ReaderMove) :
    ((start capacity).run moves).Tells :=
  ((kept_new (.ofCapacity capacity)).run moves).tells

end Noted
end EventHttp
