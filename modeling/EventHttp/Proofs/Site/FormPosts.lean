import EventHttp.Site.Handler
import EventHttp.Proofs.Credentials.Names

/-! What a site lets through of its credentials.  It turns to them for a form that is posted to
the login or the register page and for nothing else; what it answers then tells the verdict on
the name and the password of the form and nothing more; and all that a store may gain is a
name that was free. -/

namespace EventHttp

namespace Request

structure PostsForm (r : Request) : Prop where
  posted : r.method = .post
  toForm : r.path = loginRoute ∨ r.path = registerRoute
  form : ∃ type, r.headers.get? "Content-Type" = some type ∧ Form.isForm type = true

def isLogin (r : Request) : Bool :=
  r.path == loginRoute

def field (r : Request) (name : String) : String :=
  (Form.value? (Form.pairs r.body) name).getD ""

variable {r : Request}

theorem formPost?_of_postsForm (h : r.PostsForm) :
    r.formPost? = some (r.isLogin, Form.pairs r.body) := by
  obtain ⟨type, htype, hform⟩ := h.form
  rw [formPost?, if_neg (not_not_intro h.posted),
    if_neg fun hne => h.toForm.elim hne.1 hne.2, htype]
  exact if_pos hform

theorem formPost?_of_not_postsForm (h : ¬ r.PostsForm) : r.formPost? = none := by
  rw [formPost?]
  split
  · rfl
  · rename_i hpost
    split
    · rfl
    · rename_i hroute
      cases htype : r.headers.get? "Content-Type" with
      | none => rfl
      | some type =>
        refine if_neg fun hform => h ⟨Decidable.not_not.mp hpost, ?_, type, htype, hform⟩
        by_cases hlogin : r.path = loginRoute
        · exact Or.inl hlogin
        · exact Or.inr (Decidable.not_not.mp fun hregister => hroute ⟨hlogin, hregister⟩)

end Request

namespace Credentials

variable {s : Credentials} {name password : String}

def check (s : Credentials) (r : Request) : Bool × Credentials :=
  s.verify (r.field "username") (r.field "password") r.isLogin

structure SameUsers (before after : Credentials) : Prop where
  shardOf : after.shardOf = before.shardOf
  shards : after.shards = before.shards

structure Enrols (before after : Credentials) (name password : String) : Prop where
  name_ne : name ≠ ""
  password_ne : password ≠ ""
  free : before.find? name = none
  shardOf : after.shardOf = before.shardOf
  shards : after.shards = (before.put name password).shards
  find? : ∀ key, after.find? key = if key = name then some password else before.find? key

theorem sameUsers_verify_login (s : Credentials) (name password : String) :
    s.SameUsers (s.verify name password true).2 := by
  rw [verify, password_eq]
  split
  · exact ⟨rfl, rfl⟩
  · cases s.find? name <;> exact ⟨rfl, rfl⟩

theorem verify_register_cases (s : Credentials) (name password : String) :
    s.SameUsers (s.verify name password false).2 ∨
      s.Enrols (s.verify name password false).2 name password := by
  rw [verify, password_eq]
  split
  · exact Or.inl ⟨rfl, rfl⟩
  · rename_i hfilled
    cases hfree : s.find? name with
    | some stored => exact Or.inl ⟨rfl, rfl⟩
    | none =>
      have hcontains : s.countLookup.contains name = false := contains_eq_false_iff.mpr hfree
      have hinsert : (s.countLookup.insert name password).2 =
          (s.countLookup.put name password).countUser.countRegistration := by
        rw [insert_eq, hcontains]
        rfl
      dsimp only
      rw [if_neg Bool.false_ne_true, hinsert]
      exact Or.inr ⟨fun he => hfilled (Or.inl he), fun he => hfilled (Or.inr he), hfree, rfl, rfl,
        find?_put s name password⟩

end Credentials

namespace Handler

variable {r : Request}

theorem handle_of_not_postsForm (h : Handler) (hr : ¬ r.PostsForm) (s : Credentials)
    (keepAlive : Bool) : h.handle s r keepAlive = (h.serve r.path keepAlive, s) := by
  rw [handle, route, Request.formPost?_of_not_postsForm hr]

theorem handle_of_postsForm (h : Handler) (hr : r.PostsForm) (s : Credentials) (keepAlive : Bool) :
    h.handle s r keepAlive =
      (h.serve (if (s.check r).1 then welcomePage else errorPage) keepAlive, (s.check r).2) := by
  have hcheck : s.verify ((Form.value? (Form.pairs r.body) "username").getD "")
      ((Form.value? (Form.pairs r.body) "password").getD "") r.isLogin = s.check r := rfl
  rw [handle, route, Request.formPost?_of_postsForm hr]
  dsimp only
  rw [hcheck]
  cases s.check r with
  | mk passed store => cases passed <;> rfl

/-- What can be told of the credentials from an answer, and what a request may do to them. -/
structure Discreet (h : Handler) (r : Request) (keepAlive : Bool) : Prop where
  silent : ¬ r.PostsForm → ∀ s t : Credentials,
    (h.handle s r keepAlive).1 = (h.handle t r keepAlive).1
  untouched : ¬ r.PostsForm → ∀ s, (h.handle s r keepAlive).2 = s
  verdict : r.PostsForm → ∀ s t : Credentials, (s.check r).1 = (t.check r).1 →
    (h.handle s r keepAlive).1 = (h.handle t r keepAlive).1
  login : r.PostsForm → r.path = loginRoute → ∀ s : Credentials,
    s.SameUsers (h.handle s r keepAlive).2
  register : r.PostsForm → r.path = registerRoute → ∀ s : Credentials,
    s.SameUsers (h.handle s r keepAlive).2 ∨
      s.Enrols (h.handle s r keepAlive).2 (r.field "username") (r.field "password")

theorem discreet (h : Handler) (r : Request) (keepAlive : Bool) : h.Discreet r keepAlive where
  silent := by
    intro hr s t
    rw [handle_of_not_postsForm h hr, handle_of_not_postsForm h hr]
  untouched := by
    intro hr s
    rw [handle_of_not_postsForm h hr]
  verdict := by
    intro hr s t hsame
    rw [handle_of_postsForm h hr, handle_of_postsForm h hr, hsame]
  login := by
    intro hr hpath s
    have hlogin : r.isLogin = true := beq_iff_eq.mpr hpath
    rw [handle_of_postsForm h hr, Credentials.check, hlogin]
    exact s.sameUsers_verify_login _ _
  register := by
    intro hr hpath s
    have hregister : r.isLogin = false := by
      rw [Request.isLogin, hpath]
      decide
    rw [handle_of_postsForm h hr, Credentials.check, hregister]
    exact s.verify_register_cases _ _

end Handler
end EventHttp
