import EventHttp.Proofs.Site.FilePaths
import EventHttp.Site.Content

/-! Where a site looks for what is asked of it.  The text that it opens leads to its root and
from there down the names of the request path, so it answers with what stands there and with
nothing else of the machine; where the path has a segment `..` it does not look at all. -/

namespace EventHttp

theorem Lookup.ofRead_eq_found_iff {content : Except IoCause (List UInt8)} {body : List UInt8} :
    ofRead content = .found body ↔ content = .ok body := by
  cases content with
  | ok b => rw [ofRead, found.injEq, Except.ok.injEq]
  | error cause =>
    rw [ofRead]
    split <;> exact ⟨fun h => (nomatch h), fun h => (nomatch h)⟩

theorem Lookup.ofEntry_eq_found_iff {entry : Option FileTree} {body : List UInt8} :
    ofEntry entry = .found body ↔
      ∃ mode, entry = some (.file mode (.ok body)) ∧ mode &&& FileTree.worldRead ≠ 0 := by
  constructor
  · intro h
    match entry with
    | none | some (.directory _) => cases h
    | some (.file mode content) =>
      rw [ofEntry] at h
      split at h
      · cases h
      · rename_i hmode
        exact ⟨mode, ofRead_eq_found_iff.mp h ▸ rfl, hmode⟩
  · rintro ⟨mode, rfl, hmode⟩
    rw [ofEntry, if_neg hmode, ofRead]

namespace FileSystem
open FileTree

variable {files : FileSystem} {place : List String} {name : String}

theorem step?_of_isName (files : FileSystem) (place : List String) (h : IsName name) :
    files.step? place name =
      (files.top.find? (place ++ [name])).map fun _ => place ++ [name] := by
  rw [step?, find?_append]
  cases files.top.find? place with
  | none => rfl
  | some t =>
    cases t with
    | file mode content => rfl
    | directory entries =>
      dsimp only
      rw [if_neg (not_or.mpr ⟨h.ne_blank, h.ne_here⟩), if_neg h.ne_up, Option.bind_some, find?]
      cases entries.lookup name <;> rfl

theorem step?_blank_bind (files : FileSystem) (place : List String) (name : String) :
    ((files.step? place "").bind fun place => files.step? place name) = files.step? place name := by
  rw [step?, step?]
  cases hplace : files.top.find? place with
  | none => rfl
  | some t =>
    cases t with
    | file mode content => rfl
    | directory entries =>
      dsimp only
      rw [if_pos (Or.inl rfl), Option.bind_some, step?, hplace]

theorem foldlM_step?_of_isName {names : List String} (h : ∀ name ∈ names, IsName name)
    (files : FileSystem) (place : List String) :
    (names.foldlM files.step? place).bind files.top.find? = files.top.find? (place ++ names) := by
  induction names generalizing place with
  | nil => exact congrArg files.top.find? (List.append_nil place).symm
  | cons name names ih =>
    obtain ⟨hname, hnames⟩ := List.forall_mem_cons.mp h
    have hplace : place ++ name :: names = (place ++ [name]) ++ names := by
      rw [List.append_assoc, List.singleton_append]
    rw [List.foldlM_cons, step?_of_isName files place hname, hplace]
    cases hfound : files.top.find? (place ++ [name]) with
    | none =>
      rw [find?_append, hfound]
      rfl
    | some t => exact ih hnames (place ++ [name])

theorem foldlM_step?_concat (files : FileSystem) (segments : List String) (name : String)
    (place : List String) :
    (segments ++ [name]).foldlM files.step? place =
      (segments.foldlM files.step? place).bind fun place => files.step? place name := by
  rw [List.foldlM_append]
  simp only [List.foldlM_cons, List.foldlM_nil, bind_pure]
  rfl

theorem walk?_push (files : FileSystem) (path : String) (h : IsName name) :
    files.walk? (FilePath.push path name) =
      (files.walk? path).bind fun place => files.step? place name := by
  have hsegments := segments_of_slash_not_mem h.slash_not_mem
  have hblank : (fun place => (files.step? place "").bind fun place => files.step? place name) =
      fun place => files.step? place name := funext fun place => step?_blank_bind files place name
  rw [walk?, walk?, FilePath.isAbsolute_push path h]
  rcases FilePath.push_cases path h with ⟨rfl, he⟩ | ⟨init, hpath, he⟩ | ⟨-, he⟩
  · rw [he, hsegments, segments_blank, ← List.nil_append [name], foldlM_step?_concat,
      ← List.nil_append [""], foldlM_step?_concat, Option.bind_assoc, hblank]
  · rw [he, hpath, segments_append_slash, segments_append_slash, hsegments, segments_blank,
      foldlM_step?_concat, foldlM_step?_concat, Option.bind_assoc, hblank]
  · rw [he, segments_append_slash, hsegments, foldlM_step?_concat]

theorem walk?_foldl_push {names : List String} (h : ∀ name ∈ names, IsName name)
    (files : FileSystem) (path : String) :
    files.walk? (names.foldl FilePath.push path) =
      (files.walk? path).bind fun place => names.foldlM files.step? place := by
  induction names generalizing path with
  | nil => exact (Option.bind_fun_some _).symm
  | cons name names ih =>
    obtain ⟨hname, hnames⟩ := List.forall_mem_cons.mp h
    rw [List.foldl_cons, ih hnames, walk?_push files path hname, Option.bind_assoc]
    rfl

theorem ofEntry_walk?_blank (files : FileSystem) :
    Lookup.ofEntry ((files.walk? "").bind files.top.find?) = .notFound := by
  have hwalk : files.walk? "" = files.step? files.workingDirectory "" := by
    rw [walk?, segments_blank, ← List.nil_append [""], foldlM_step?_concat]
    rfl
  rw [hwalk, step?]
  cases hplace : files.top.find? files.workingDirectory with
  | none => rfl
  | some t =>
    cases t with
    | file mode content => rfl
    | directory entries =>
      dsimp only
      rw [if_pos (Or.inl rfl), Option.bind_some, hplace]
      rfl

end FileSystem

namespace FileSite
open FileTree

variable {site : FileSite} {path : String}

def place? (site : FileSite) (path : String) : Option (List String) :=
  (site.files.walk? site.root).map (· ++ names path)

def target? (site : FileSite) (path : String) : Option FileTree :=
  (site.place? path).bind site.files.top.find?

theorem walk?_names (site : FileSite) (hup : ".." ∉ segments path) :
    (site.files.walk? ((names path).foldl FilePath.push site.root)).bind site.files.top.find? =
      site.target? path := by
  have hnames : ∀ name ∈ names path, IsName name := fun _ h => isName_of_mem_names hup h
  rw [FileSystem.walk?_foldl_push hnames, target?, place?]
  cases site.files.walk? site.root with
  | none => rfl
  | some place => exact FileSystem.foldlM_step?_of_isName hnames site.files place

theorem lookup_of_up (site : FileSite) (hup : ".." ∈ segments path) :
    site.lookup path = .forbidden := by
  rw [lookup, FilePath.below?_eq, if_pos hup]

theorem below?_of_not_up (site : FileSite) (hup : ".." ∉ segments path) :
    FilePath.below? site.root path = some ((names path).foldl FilePath.push site.root) := by
  rw [FilePath.below?_eq, if_neg hup]

theorem lookup_eq_ofEntry (site : FileSite) (hup : ".." ∉ segments path) :
    site.lookup path = .ofEntry (site.target? path) := by
  rw [lookup, below?_of_not_up site hup]
  dsimp only
  rw [FileSystem.open?]
  split
  · rename_i hblank
    -- the text is blank, so the place is the working directory: neither is served
    rw [← walk?_names site hup, hblank, FileSystem.ofEntry_walk?_blank]
    rfl
  · rw [walk?_names site hup]

/-- The site answers for the place of the path, which is its root or below it, and for that
alone. -/
structure Confined (site : FileSite) (path : String) : Prop where
  refuses : ".." ∈ segments path → site.lookup path = .forbidden
  opens : ".." ∉ segments path → ∃ file, FilePath.below? site.root path = some file ∧
    names file = names site.root ++ names path ∧
    (file ≠ "" → site.files.open? file = site.target? path)
  descends : ".." ∉ segments path → ∀ name ∈ names path, IsName name
  found_iff : ".." ∉ segments path → ∀ body, site.lookup path = .found body ↔
    ∃ mode, site.target? path = some (.file mode (.ok body)) ∧ mode &&& worldRead ≠ 0
  forbidden : ".." ∉ segments path → ∀ mode content,
    site.target? path = some (.file mode content) → mode &&& worldRead = 0 →
    site.lookup path = .forbidden
  notFound : ".." ∉ segments path →
    (site.target? path = none ∨ ∃ entries, site.target? path = some (.directory entries)) →
    site.lookup path = .notFound

theorem confined (site : FileSite) (path : String) : site.Confined path where
  refuses := site.lookup_of_up
  opens := by
    intro hup
    have hnames : ∀ name ∈ names path, IsName name := fun _ h => isName_of_mem_names hup h
    have hbelow := FilePath.names_foldl_push hnames site.root
    refine ⟨_, below?_of_not_up site hup, hbelow, fun hne => ?_⟩
    rw [FileSystem.open?, if_neg hne, walk?_names site hup]
  descends := fun hup _ h => isName_of_mem_names hup h
  found_iff := by
    intro hup body
    rw [lookup_eq_ofEntry site hup, Lookup.ofEntry_eq_found_iff]
  forbidden := by
    intro hup mode content hentry hmode
    rw [lookup_eq_ofEntry site hup, hentry, Lookup.ofEntry, if_pos hmode]
  notFound := by
    intro hup hentry
    rw [lookup_eq_ofEntry site hup]
    rcases hentry with h | ⟨entries, h⟩ <;> rw [h] <;> rfl

example :
    let secret := FileTree.file 0o644 (.ok [1])
    let page := FileTree.file 0o644 (.ok [2])
    let site : FileSite := ⟨⟨[("etc", .directory [("key", secret)]),
      ("srv", .directory [("www", .directory [("a", page)])])], ["srv"]⟩, "../srv/./www/"⟩
    site.lookup "//./a" = .found [2] ∧ site.lookup "etc/key" = .notFound ∧
      site.lookup "/x/../../../etc/key" = .forbidden := by
  decide

end FileSite
end EventHttp
