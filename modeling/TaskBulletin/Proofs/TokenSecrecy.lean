import TaskBulletin.Body
import TaskBulletin.Proofs.Alike
import Mathlib.Data.Option.Basic

/-!
# The webhook's token stays secret

Two connections for configurations that differ in the webhook's token are used in the same
way, on the same network. Each action keeps them alike: the same requests were sent through
the same sessions, and their addresses differ in nothing but the base. What an action
replies and logs is read off the network and never off the address, so whoever sees the
replies, the log and the requests without their base cannot tell the tokens apart. The same
goes for bodies that are rendered through the connections.
-/

namespace TaskBulletin.Portal

open TaskBulletin.Bracket (SameResult)

/-! ## Connections that differ in their base -/

/-- The same method called with the same parameters, at two bases. -/
def PostAlike (base base' : Text) (p p' : Text × Value) : Prop :=
  p'.2 = p.2 ∧ ∃ method, p.1 = base ++ method ∧ p'.1 = base' ++ method

structure Session.Alike (base base' : Text) (s s' : Session) : Prop where
  posts : List.Forall₂ (PostAlike base base') s.posts s'.posts
  closed : s'.closed = s.closed

/-- Two connections that differ in the base of their addresses only. -/
structure Connection.Alike (base base' : Text) (c c' : Connection) : Prop where
  baseUrl : c.baseUrl = base
  baseUrl' : c'.baseUrl = base'
  timeout : c'.timeout = c.timeout
  ownsSessions : c'.ownsSessions = c.ownsSessions
  sessions : List.Forall₂ (Session.Alike base base') c.sessions c'.sessions
  current : c'.current = c.current
  sent : c'.sent = c.sent

theorem forall₂_modify {α β : Type} {Rel : α → β → Prop} {f : α → α} {g : β → β}
    (hfg : ∀ a b, Rel a b → Rel (f a) (g b)) {xs : List α} {ys : List β}
    (h : List.Forall₂ Rel xs ys) (k : Nat) : List.Forall₂ Rel (xs.modify k f) (ys.modify k g) := by
  induction h generalizing k with
  | nil => simp
  | cons hxy hrest ih =>
    cases k with
    | zero => exact .cons (hfg _ _ hxy) hrest
    | succ k => exact .cons hxy (ih k)

namespace Connection

variable {base base' : Text} {c c' : Connection}

namespace Alike

theorem useSession (h : Alike base base' c c') :
    c'.useSession.1 = c.useSession.1 ∧ Alike base base' c.useSession.2 c'.useSession.2 := by
  have hcurrent := h.current
  cases hc : c.current with
  | some k =>
    rw [hc] at hcurrent
    simp only [Connection.useSession, hc, hcurrent]
    exact ⟨trivial, h⟩
  | none =>
    rw [hc] at hcurrent
    simp only [Connection.useSession, hc, hcurrent, h.sessions.length_eq]
    exact ⟨trivial, { h with
      sessions := List.rel_append h.sessions (.cons ⟨.nil, rfl⟩ .nil)
      current := rfl }⟩

theorem close (h : Alike base base' c c') : Alike base base' c.close c'.close := by
  have howns := h.ownsSessions
  have hcurrent := h.current
  rw [Connection.close, Connection.close, howns, hcurrent]
  cases c.ownsSessions with
  | false => exact h
  | true =>
    cases c.current with
    | none => exact h
    | some k =>
      have hclosed := forall₂_modify (f := fun s : Session => { s with closed := true })
        (g := fun s : Session => { s with closed := true }) (fun _ _ hs => ⟨hs.posts, rfl⟩)
          h.sessions k
      exact ⟨h.baseUrl, h.baseUrl', h.timeout, rfl, hclosed, rfl, h.sent⟩

theorem post (h : Alike base base' c c') (network : Network) (method : Text) (body : Value) :
    (c'.post network (base' ++ method) body).1 = (c.post network (base ++ method) body).1 ∧
      Alike base base' (c.post network (base ++ method) body).2
        (c'.post network (base' ++ method) body).2 := by
  obtain ⟨hk, hused⟩ := h.useSession
  have hpost : PostAlike base base' (base ++ method, body) (base' ++ method, body) :=
    ⟨rfl, method, rfl, rfl⟩
  refine ⟨congrArg network hused.sent, { hused with sessions := ?_, sent := ?_ }⟩
  · simp only [Connection.post, hk]
    exact forall₂_modify (fun _ _ hs => ⟨List.rel_append hs.posts (.cons hpost .nil), hs.closed⟩)
      hused.sessions _
  · exact congrArg (· + 1) hused.sent

theorem call (h : Alike base base' c c') (network : Network) (method : Text) (params : Value) :
    (c'.call network method params).1 = (c.call network method params).1 ∧
      (c'.call network method params).2.1 = (c.call network method params).2.1 ∧
        Alike base base' (c.call network method params).2.2
          (c'.call network method params).2.2 := by
  have hposted := h.post network method (if params.holds then params else .object [])
  simp only [Connection.call, h.baseUrl, h.baseUrl', hposted.1, true_and]
  exact hposted.2

theorem file (h : Alike base base' c c') (network : Network) (id : Int) :
    (c'.file network id).1 = (c.file network id).1 ∧
      (c'.file network id).2.1 = (c.file network id).2.1 ∧
        Alike base base' (c.file network id).2.2 (c'.file network id).2.2 := by
  obtain ⟨hresult, hevents, hafter⟩ := h.call network fileMethod (.object [("id".toList, .int id)])
  exact ⟨congrArg (fileOfCall id) hresult, hevents, hafter⟩

/-- Every action gets the same reply, logs the same and keeps the connections alike. -/
theorem act (h : Alike base base' c c') (network : Network) (a : Action) :
    (c'.act network a).1 = (c.act network a).1 ∧ (c'.act network a).2.1 = (c.act network a).2.1 ∧
      Alike base base' (c.act network a).2.2 (c'.act network a).2.2 := by
  cases a with
  | call method params =>
    obtain ⟨hresult, hevents, hafter⟩ := h.call network method params
    refine ⟨?_, hevents, hafter⟩
    simp only [Connection.act, hresult]
  | file id =>
    obtain ⟨hresult, hevents, hafter⟩ := h.file network id
    refine ⟨?_, hevents, hafter⟩
    simp only [Connection.act, hresult]
  | close => exact ⟨rfl, rfl, h.close⟩

theorem run (network : Network) (actions : List Action) (h : Alike base base' c c') :
    (Connection.run network actions c').1 = (Connection.run network actions c).1 ∧
      Alike base base' (Connection.run network actions c).2
        (Connection.run network actions c').2 := by
  induction actions generalizing c c' with
  | nil => exact ⟨rfl, h⟩
  | cons a actions ih =>
    obtain ⟨hreply, hevents, hafter⟩ := h.act network a
    obtain ⟨hrest, hlast⟩ := ih hafter
    refine ⟨?_, hlast⟩
    simp only [Connection.run, hreply, hevents, hrest]

end Alike

/-! ## Connections for two tokens -/

def opened (c : Configuration) (handedOver : Bool) (baseUrl : Text) : Connection where
  baseUrl := baseUrl
  timeout := c.timeout
  ownsSessions := !handedOver
  sessions := if handedOver then [{}] else []
  current := if handedOver then some 0 else none
  sent := 0

theorem alike_opened (c : Configuration) (handedOver : Bool) (base base' : Text) :
    Alike base base' (opened c handedOver base) (opened c handedOver base') where
  baseUrl := rfl
  baseUrl' := rfl
  timeout := rfl
  ownsSessions := rfl
  sessions := by
    cases handedOver with
    | false => exact .nil
    | true => exact .cons ⟨.nil, rfl⟩ .nil
  current := rfl
  sent := rfl

/-- Whatever the token is, a connection is refused, or it is opened at a base that ends with the
token. -/
theorem open?_withToken (c : Configuration) (handedOver : Bool) :
    (∀ token, token ≠ [] → open? { c with token := some token } handedOver = none) ∨
      ∃ front, ∀ token, token ≠ [] → open? { c with token := some token } handedOver =
        some (opened c handedOver (front ++ token ++ ['/'])) := by
  have htoken {token : Text} (ht : token ≠ []) : Configuration.nonempty? (some token) =
      some token := by
    cases token with
    | nil => exact absurd rfl ht
    | cons x xs => rfl
  cases hd : Configuration.nonempty? c.domain with
  | none =>
    refine .inl fun token _ => ?_
    simp [open?, Configuration.webhookUrl?, hd]
  | some domain =>
    cases hu : Configuration.nonempty? c.webhookUser with
    | none =>
      refine .inl fun token _ => ?_
      simp [open?, Configuration.webhookUrl?, hd, hu]
    | some user =>
      refine .inr ⟨domain ++ "/rest/".toList ++ user ++ ['/'], fun token ht => ?_⟩
      simp [open?, Configuration.webhookUrl?, Configuration.token?, hd, hu, htoken ht, opened]

end Connection

end TaskBulletin.Portal

namespace TaskBulletin

open Portal (Connection Network)
open TaskBulletin.Bracket (Services SameResult)
open Recoding (same)

/-! ## Rendering through alike connections -/

structure Desk.Alike (base base' : Text) (d d' : Desk) : Prop where
  connection : Option.Rel (Connection.Alike base base') d.connection d'.connection
  log : d'.log = d.log

namespace Desk.Alike

variable {base base' : Text} {d d' : Desk}

theorem write (h : Alike base base' d d') (entries : List LogEntry) :
    Alike base base' (d.write entries) (d'.write entries) :=
  ⟨h.connection, congrArg (· ++ entries) h.log⟩

theorem file (h : Alike base base' d d') (network : Network) (id : Int) :
    (Desk.file network id d').1 = (Desk.file network id d).1 ∧
      Alike base base' (Desk.file network id d).2 (Desk.file network id d').2 := by
  obtain ⟨connection, log⟩ := d
  obtain ⟨connection', log'⟩ := d'
  obtain ⟨hconnection, hlog⟩ := h
  cases hconnection with
  | none => exact ⟨rfl, .none, hlog⟩
  | some hc =>
    obtain ⟨hresult, hevents, hafter⟩ := hc.file network id
    simp only [Desk.file, hresult, hevents, true_and]
    exact ⟨.some hafter, congrArg (· ++ _) hlog⟩

theorem noteDomain (h : Alike base base' d d') (people : People) :
    Alike base base' (Task.noteDomain (directory people) people.domain d)
      (Task.noteDomain (directory people) people.domain d') := by
  rw [Task.noteDomain, Task.noteDomain]
  split
  · exact h.write _
  · exact h

theorem user (h : Alike base base' d d') (people : Option People) (id : Int) :
    (Desk.user people id d').1 = (Desk.user people id d).1 ∧
      Alike base base' (Desk.user people id d).2 (Desk.user people id d').2 := by
  cases people with
  | none => exact ⟨rfl, h⟩
  | some people =>
    have hfind (d : Desk) : (directory people).findUser id d = (people.find id, d) := rfl
    simp only [Desk.user, Task.userLabel, hfind]
    rcases people.find id with fault | _ | user
    · exact ⟨rfl, h⟩
    · exact ⟨rfl, (h.noteDomain people).write _⟩
    · exact ⟨rfl, h.noteDomain people⟩

end Desk.Alike

theorem alike_services (network : Network) (people : Option People) (base base' : Text) :
    (Desk.services network people).Alike (Desk.services network people) same
      (Desk.Alike base base') where
  file h id := h.file network id
  user h id := h.user people id
  report h p := by
    rw [Bracket.Problem.recode_same]
    exact h.write [p.entry]

theorem renderBody_alike {network : Network} {people : Option People} {base base' : Text}
    {d d' : Desk} (h : Desk.Alike base base' d d') (budget : Int) (source : Text) :
    SameResult (Desk.Alike base base') (renderBody (Desk.services network people) budget source d)
      (renderBody (Desk.services network people) budget source d') := by
  have hconvert := (alike_services network people base base').convert source h
  have hmap {σ : Type} (sv : Services σ) (s : σ) : renderBody sv budget source s =
      (Bracket.convert sv source s).map fun r =>
        (if (Html.excerpt budget r.1).isEmpty then dash else Html.excerpt budget r.1, r.2) := by
    simp only [renderBody, bind, Except.bind, pure, Except.pure]
    cases Bracket.convert sv source s <;> rfl
  rw [hmap, hmap]
  exact hconvert.map fun html =>
    if (Html.excerpt budget html).isEmpty then dash else Html.excerpt budget html

/-- The part of a rendering in which files are looked up. What comes after it may still fail, but
sends no requests. -/
def replaceFiles {σ : Type} (sv : Services σ) (source : Text) (s : σ) :
    Except (OverlongNumeral × σ) ((Text × Stash) × σ) :=
  (Bracket.substituteFiles sv Bracket.emptyFragments
    (Bracket.stashTags Bracket.emptyTags source).1 s).map
    fun (t, fragments, s) => ((t, fragments), s)

/-- Two connections for configurations that differ in the token only: there is none for either, or
they are opened at two bases that differ in the token, and all that is seen of them is the same but
for the base. Every action is replied to and logged alike, and the requests are alike; and every
body is rendered alike through them, with the same log, whether the rendering succeeds or fails. -/
theorem token_not_seen (c : Configuration) {token token' : Text} (ht : token ≠ [])
    (ht' : token' ≠ []) (handedOver : Bool) :
    (Connection.open? { c with token := some token } handedOver = none ∧
        Connection.open? { c with token := some token' } handedOver = none) ∨
      ∃ front k k', Connection.open? { c with token := some token } handedOver = some k ∧
        Connection.open? { c with token := some token' } handedOver = some k' ∧
        k.baseUrl = front ++ token ++ ['/'] ∧ k'.baseUrl = front ++ token' ++ ['/'] ∧
        ∀ network actions,
          (k'.run network actions).1 = (k.run network actions).1 ∧
          Connection.Alike k.baseUrl k'.baseUrl (k.run network actions).2
            (k'.run network actions).2 ∧
          ∀ people budget source log,
            SameResult (Desk.Alike k.baseUrl k'.baseUrl)
                (renderBody (Desk.services network people) budget source
                  ⟨some (k.run network actions).2, log⟩)
                (renderBody (Desk.services network people) budget source
                  ⟨some (k'.run network actions).2, log⟩) ∧
              SameResult (Desk.Alike k.baseUrl k'.baseUrl)
                (replaceFiles (Desk.services network people) source
                  ⟨some (k.run network actions).2, log⟩)
                (replaceFiles (Desk.services network people) source
                  ⟨some (k'.run network actions).2, log⟩) := by
  rcases Connection.open?_withToken c handedOver with hnone | ⟨front, hopen⟩
  · exact .inl ⟨hnone token ht, hnone token' ht'⟩
  · refine .inr ⟨front, _, _, hopen token ht, hopen token' ht', rfl, rfl, fun network actions => ?_⟩
    obtain ⟨hreplies, hafter⟩ := (Connection.alike_opened c handedOver (front ++ token ++ ['/'])
      (front ++ token' ++ ['/'])).run network actions
    refine ⟨hreplies, hafter, fun people budget source log => ?_⟩
    have hdesk : Desk.Alike (front ++ token ++ ['/']) (front ++ token' ++ ['/']) ⟨some _, log⟩
        ⟨some _, log⟩ := ⟨.some hafter, rfl⟩
    exact ⟨renderBody_alike hdesk budget source,
      (alike_services network people _ _).substituteFiles _ _ hdesk⟩

def somePortal : Configuration where
  domain := some "https://portal.example".toList
  webhookUser := some "7".toList
  token := none
  timeout := Configuration.defaultTimeout
  bodyLength := Configuration.defaultBodyLength
  logLevel := .info
  debug := false

theorem token_not_seen_somePortal :
    "key".toList ≠ [] ∧ "other".toList ≠ [] ∧
      ∃ k k', Connection.open? { somePortal with token := some "key".toList } false = some k ∧
        Connection.open? { somePortal with token := some "other".toList } false = some k' ∧
        k.baseUrl = "https://portal.example/rest/7/key/".toList ∧
        k'.baseUrl = "https://portal.example/rest/7/other/".toList ∧
        ∀ network actions, (k'.run network actions).1 = (k.run network actions).1 := by
  have ht : "key".toList ≠ [] := by decide
  have ht' : "other".toList ≠ [] := by decide
  refine ⟨ht, ht', ?_⟩
  rcases token_not_seen somePortal ht ht' false with ⟨h, -⟩ | ⟨front, k, k', hk, hk', -, -, hseen⟩
  · cases h
  · refine ⟨k, k', hk, hk', ?_, ?_, fun network actions => (hseen network actions).1⟩
    · obtain rfl := Option.some.inj hk
      decide
    · obtain rfl := Option.some.inj hk'
      decide

end TaskBulletin
