import EventHttp.Proofs.Site.Location
import EventHttp.Proofs.Site.FormPosts

/-! The media type of what is served.  It goes by the last segment of the request path, and that
is the name of the file unless it is blank or `.`: such a path leads to the file all the same,
but its type is that of no name. -/

namespace EventHttp

namespace Path
open FileTree

def lastSegment (path : String) : String :=
  String.ofList (afterLast '/' path.toList)

theorem getLast?_segments (path : String) : (segments path).getLast? = some (lastSegment path) := by
  rw [segments, List.getLast?_map, getLast?_splitAll]
  rfl

theorem mediaType_lastSegment (path : String) : mediaType (lastSegment path) = mediaType path := by
  have hmem : lastSegment path ∈ segments path := List.mem_of_getLast? (getLast?_segments path)
  have hlast := afterLast_of_not_mem (slash_not_mem_of_mem_segments hmem)
  rw [mediaType, hlast, lastSegment, String.toList_ofList]
  rfl

def EndsInName (path : String) : Prop :=
  lastSegment path ≠ "" ∧ lastSegment path ≠ "."

instance (path : String) : Decidable (EndsInName path) :=
  inferInstanceAs (Decidable (_ ∧ _))

def servedType (path name : String) : String :=
  if EndsInName path then mediaType name
  else if lastSegment path = "" then "text/plain"
  else "application/octet-stream"

theorem getLast?_names {path : String} (h : EndsInName path) :
    (names path).getLast? = some (lastSegment path) := by
  obtain ⟨init, hinit⟩ := List.getLast?_eq_some_iff.mp (getLast?_segments path)
  have hkeep : decide (lastSegment path ≠ "" ∧ lastSegment path ≠ ".") = true :=
    decide_eq_true h
  rw [names, hinit, List.filter_append, List.filter_cons, if_pos hkeep, List.filter_nil,
    List.getLast?_concat]

theorem servedType_of_not_endsInName {path : String} (h : ¬ EndsInName path) (name : String) :
    servedType path name = mediaType path := by
  rw [servedType, if_neg h, ← mediaType_lastSegment]
  by_cases hblank : lastSegment path = ""
  · rw [if_pos hblank, hblank]
    decide
  · have hhere : lastSegment path = "." := Decidable.not_not.mp fun hne => h ⟨hblank, hne⟩
    rw [if_neg hblank, hhere]
    decide

theorem servedType_lastSegment {path : String} (h : EndsInName path) :
    servedType path (lastSegment path) = mediaType path := by
  rw [servedType, if_pos h, mediaType_lastSegment]

end Path

namespace FileSite

structure Serves (site : FileSite) (path : String) (place : List String) (body : List UInt8) :
    Prop where
  up_not_mem : ".." ∉ FileTree.segments path
  leads : site.place? path = some place
  entry : ∃ mode, site.files.top.find? place = some (.file mode (.ok body)) ∧
    mode &&& FileTree.worldRead ≠ 0

variable {site : FileSite} {path : String} {place : List String} {body : List UInt8}

theorem Serves.lookup (h : site.Serves path place body) : site.lookup path = .found body := by
  obtain ⟨mode, hentry, hmode⟩ := h.entry
  have htarget : site.target? path = some (.file mode (.ok body)) := by
    rw [target?, h.leads]
    exact hentry
  rw [lookup_eq_ofEntry site h.up_not_mem]
  exact Lookup.ofEntry_eq_found_iff.mpr ⟨mode, htarget, hmode⟩

theorem Serves.exists_name (h : site.Serves path place body) :
    ∃ name, place.getLast? = some name ∧ Path.servedType path name = Path.mediaType path := by
  obtain ⟨mode, hentry, -⟩ := h.entry
  have htop : site.files.top.find? [] = some site.files.top := rfl
  have hne : place ≠ [] := by
    rintro rfl
    rw [htop] at hentry
    cases hentry
  by_cases hname : Path.EndsInName path
  · obtain ⟨root, -, rfl⟩ := Option.map_eq_some_iff.mp h.leads
    refine ⟨Path.lastSegment path, ?_, Path.servedType_lastSegment hname⟩
    rw [List.getLast?_append, Path.getLast?_names hname, Option.some_or]
  · exact ⟨_, List.getLast?_eq_some_getLast hne, Path.servedType_of_not_endsInName hname _⟩

end FileSite

namespace Handler
open FileSite

variable {r : Request} {store : Credentials} {keepAlive : Bool}

theorem serve_contentType_of_ok {h : Handler} {path : String}
    (hok : (h.serve path keepAlive).head.status = .ok) :
    (h.serve path keepAlive).head.contentType = Path.mediaType path := by
  rw [serve] at hok ⊢
  split at hok
  · rfl
  · cases hok
  · cases hok

theorem handle_contentType_of_ok {h : Handler}
    (hok : (h.handle store r keepAlive).1.head.status = .ok) :
    (h.handle store r keepAlive).1.head.contentType = Path.mediaType r.path := by
  by_cases hr : r.PostsForm
  · have hposted : Path.mediaType r.path = "text/html" := by
      rcases hr.toForm with hpath | hpath <;> rw [hpath] <;> decide
    have hpage (passed : Bool) :
        Path.mediaType (if passed then welcomePage else errorPage) = "text/html" := by
      cases passed <;> decide
    rw [handle_of_postsForm h hr] at hok ⊢
    rw [serve_contentType_of_ok hok, hpage, hposted]
  · rw [handle_of_not_postsForm h hr] at hok ⊢
    exact serve_contentType_of_ok hok

end Handler

namespace FileSite

def answer (site : FileSite) (secs : Option Nat) (store : Credentials) (r : Request)
    (keepAlive : Bool) : Response :=
  (Handler.handle ⟨site.lookup, secs⟩ store r keepAlive).1

variable {site : FileSite} {place : List String} {body : List UInt8} {secs : Option Nat}
  {r : Request} {store : Credentials} {keepAlive : Bool}

theorem Serves.answer (h : site.Serves r.path place body) (hr : ¬ r.PostsForm) :
    (site.answer secs store r keepAlive).head.status = .ok ∧
      (site.answer secs store r keepAlive).body = body := by
  have hserve := Handler.handle_of_not_postsForm ⟨site.lookup, secs⟩ hr store keepAlive
  rw [FileSite.answer, hserve, Handler.serve]
  dsimp only
  rw [h.lookup]
  exact ⟨rfl, rfl⟩

theorem Serves.contentType (h : site.Serves r.path place body)
    (hok : (site.answer secs store r keepAlive).head.status = .ok) :
    ∃ name, place.getLast? = some name ∧
      (site.answer secs store r keepAlive).head.contentType = Path.servedType r.path name := by
  obtain ⟨name, hname, htype⟩ := h.exists_name
  refine ⟨name, hname, ?_⟩
  rw [FileSite.answer] at hok ⊢
  rw [Handler.handle_contentType_of_ok hok, htype]

/-- A file is answered with its body.  Its type is that of its own name when the path ends in a
name, so all such paths to one file give it one type; behind a slash or a `.` it is not. -/
theorem contentType_of_serves (site : FileSite) (secs : Option Nat)
    (hserves : site.Serves r.path place body) (store : Credentials) (keepAlive : Bool) :
    (¬ r.PostsForm → (site.answer secs store r keepAlive).head.status = .ok ∧
        (site.answer secs store r keepAlive).body = body) ∧
      ((site.answer secs store r keepAlive).head.status = .ok → ∃ name,
        place.getLast? = some name ∧
        (site.answer secs store r keepAlive).head.contentType = Path.servedType r.path name) ∧
      ∀ (store' : Credentials) (r' : Request) (keepAlive' : Bool),
        site.Serves r'.path place body → Path.EndsInName r.path → Path.EndsInName r'.path →
        (site.answer secs store r keepAlive).head.status = .ok →
        (site.answer secs store' r' keepAlive').head.status = .ok →
        (site.answer secs store' r' keepAlive').head.contentType =
          (site.answer secs store r keepAlive).head.contentType := by
  refine ⟨hserves.answer, hserves.contentType, ?_⟩
  intro store' r' keepAlive' hserves' hends hends' hok hok'
  obtain ⟨name, hname, htype⟩ := hserves.contentType hok
  obtain ⟨name', hname', htype'⟩ := hserves'.contentType hok'
  have hsame : name' = name := Option.some.inj (hname'.symm.trans hname)
  rw [htype, htype', hsame, Path.servedType, Path.servedType, if_pos hends, if_pos hends']

/-- A style sheet and a page are served to a plain path and to one with blank and `.` segments. -/
theorem contentType_of_serves_page :
    let site : FileSite := ⟨⟨[("srv", .directory [("v1.0", .directory
      [("a.css", .file 0o644 (.ok [1]))])])], []⟩, "/srv"⟩
    let plain : Request := ⟨.get, "/v1.0/a.css", "1.1", .empty, []⟩
    let winding : Request := ⟨.get, "v1.0//./a.css", "1.1", .empty, []⟩
    site.Serves plain.path ["srv", "v1.0", "a.css"] [1] ∧
      site.Serves winding.path ["srv", "v1.0", "a.css"] [1] ∧
      ∀ store, (site.answer none store plain true).head.contentType = "text/css" ∧
        (site.answer none store winding true).head.contentType = "text/css" := by
  intro site plain winding
  have hplain : site.Serves plain.path ["srv", "v1.0", "a.css"] [1] :=
    ⟨by decide, by decide, 0o644, rfl, by decide⟩
  have hwinding : site.Serves winding.path ["srv", "v1.0", "a.css"] [1] :=
    ⟨by decide, by decide, 0o644, rfl, by decide⟩
  have hget : ∀ {r : Request}, r.method = .get → ¬ r.PostsForm := by
    intro r hmethod hr
    rw [hr.posted] at hmethod
    cases hmethod
  refine ⟨hplain, hwinding, fun store => ?_⟩
  have hfirst := contentType_of_serves site none hplain store true
  have hsecond := contentType_of_serves site none hwinding store true
  obtain ⟨name, hname, htype⟩ := hfirst.2.1 (hfirst.1 (hget rfl)).1
  have hsame := hfirst.2.2 store winding true hwinding (by decide) (by decide)
    (hfirst.1 (hget rfl)).1 (hsecond.1 (hget rfl)).1
  have hcss : (site.answer none store plain true).head.contentType = "text/css" := by
    rw [htype, ← Option.some.inj hname]
    decide
  exact ⟨hcss, hsame.trans hcss⟩

/-- A page that is asked for with a slash behind its name is served as plain text. -/
theorem not_forall_contentType :
    ¬ ∀ (site : FileSite) (secs : Option Nat) (place : List String) (body : List UInt8)
      (store : Credentials) (r : Request) (keepAlive : Bool) (name : String),
      site.Serves r.path place body → place.getLast? = some name →
      (site.answer secs store r keepAlive).head.status = .ok →
      (site.answer secs store r keepAlive).head.contentType = Path.mediaType name := by
  intro hall
  have htype := hall
    ⟨⟨[("srv", .directory [("index.html", .file 0o644 (.ok [1]))])], []⟩, "/srv"⟩ none
    ["srv", "index.html"] [1] (.empty fun _ => 0) ⟨.get, "/index.html/", "1.1", .empty, []⟩ true
    "index.html" ⟨by decide, by decide, 0o644, rfl, by decide⟩ rfl (by decide)
  exact absurd htype (by decide)

end FileSite
end EventHttp
