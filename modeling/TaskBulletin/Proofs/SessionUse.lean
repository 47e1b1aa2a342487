import TaskBulletin.Proofs.CallEnding
import TaskBulletin.Proofs.TokenSecrecy
import Mathlib.Data.List.Induction
import Mathlib.Tactic.SplitIfs

/-!
# The sessions of a connection in use

A connection that opens its sessions itself has them in a row: the older ones are closed, and
the last one is open as long as it is in use, which is from the first request since the
connection was made or closed until it is closed again. Each step keeps this, so it holds after
any steps, whatever becomes of their requests. A connection that was handed a session uses that
one for all requests and leaves it open.
-/

namespace TaskBulletin.Portal

/-- What is done with a connection, also as the resource of a block: to enter the block does
nothing to the connection, and to leave it is to close the connection. -/
inductive Step where
  | call (method : Text) (params : Value)
  | file (id : Int)
  | enter
  | leave
  | close

namespace Step

def action? : Step → Option Connection.Action
  | call method params => some (.call method params)
  | file id => some (.file id)
  | enter => none
  | leave => some .close
  | close => some .close

def request? (base : Text) : Step → Option (Text × Value)
  | call method params => some (base ++ method, if params.holds then params else .object [])
  | file id => some (base ++ fileMethod, .object [("id".toList, .int id)])
  | _ => none

def sends : Step → Bool
  | call _ _ => true
  | file _ => true
  | _ => false

def closes : Step → Bool
  | leave => true
  | close => true
  | _ => false

def take (network : Network) (c : Connection) (step : Step) : Connection :=
  match step.action? with
  | some a => (c.act network a).2.2
  | none => c

/-- The connection at the moments of a step, in order. A request is sent when a session is in
use. -/
def moments (network : Network) (c : Connection) (step : Step) : List Connection :=
  if step.sends then [c.useSession.2, step.take network c] else [step.take network c]

theorem not_sends_of_closes {step : Step} (h : step.closes = true) : step.sends = false := by
  cases step <;> simp_all [closes, sends]

end Step

namespace Connection

variable {network : Network} {c : Connection}

def after (network : Network) (c : Connection) (steps : List Step) : Connection :=
  (c.run network (steps.filterMap Step.action?)).2

theorem run_append (as bs : List Action) (c : Connection) :
    (c.run network (as ++ bs)).2 = (((c.run network as).2).run network bs).2 := by
  induction as generalizing c with
  | nil => rfl
  | cons a as ih => exact ih (c.act network a).2.2

theorem after_concat (network : Network) (c : Connection) (steps : List Step) (step : Step) :
    c.after network (steps ++ [step]) = step.take network (c.after network steps) := by
  unfold after
  rw [List.filterMap_append, run_append]
  cases step <;> rfl

/-! ## What a step does to the sessions -/

theorem useSession_of_some {k : Nat} (h : c.current = some k) : c.useSession = (k, c) := by
  unfold useSession
  rw [h]

theorem useSession_of_none (h : c.current = none) : c.useSession =
    (c.sessions.length,
      { c with
        sessions := c.sessions ++ [{}]
        current := some c.sessions.length }) := by
  unfold useSession
  rw [h]

theorem close_of_some {k : Nat} (ho : c.ownsSessions = true) (h : c.current = some k) : c.close =
    { c with
      sessions := c.sessions.modify k fun s => { s with closed := true }
      current := none } := by
  unfold close
  rw [ho, h]

theorem close_of_none (h : c.current = none) : c.close = c := by
  unfold close
  rw [h]
  cases c.ownsSessions <;> rfl

theorem close_of_not_owns (h : c.ownsSessions = false) : c.close = c := by
  unfold close
  rw [h]

/-- A request is added to the session in use, and nothing else of the connection changes but the
number of requests. -/
theorem take_of_request {step : Step} {request : Text × Value}
    (h : step.request? c.baseUrl = some request) :
    step.take network c =
      { c.useSession.2 with
        sessions := c.useSession.2.sessions.modify c.useSession.1
          fun s => { s with posts := s.posts ++ [request] }
        sent := c.useSession.2.sent + 1 } := by
  cases step with
  | call method params =>
    obtain ⟨⟩ := h
    rfl
  | file id =>
    obtain ⟨⟩ := h
    rfl
  | enter => cases h
  | leave => cases h
  | close => cases h

theorem take_of_closes {step : Step} (h : step.closes = true) : step.take network c = c.close := by
  cases step with
  | call method params => cases h
  | file id => cases h
  | enter => cases h
  | leave => rfl
  | close => rfl

theorem take_of_idle {step : Step} (hs : step.sends = false) (hc : step.closes = false) :
    step.take network c = c := by
  cases step with
  | call method params => cases hs
  | file id => cases hs
  | enter => rfl
  | leave => cases hc
  | close => cases hc

/-- A step sends a request, closes the connection, or does neither. -/
theorem step_cases (base : Text) (step : Step) :
    (∃ request, step.request? base = some request ∧ step.sends = true ∧ step.closes = false) ∨
      (step.request? base = none ∧ step.sends = false ∧ step.closes = true) ∨
      step.request? base = none ∧ step.sends = false ∧ step.closes = false := by
  cases step with
  | call method params => exact .inl ⟨_, rfl, rfl, rfl⟩
  | file id => exact .inl ⟨_, rfl, rfl, rfl⟩
  | enter => exact .inr (.inr ⟨rfl, rfl, rfl⟩)
  | leave => exact .inr (.inl ⟨rfl, rfl, rfl⟩)
  | close => exact .inr (.inl ⟨rfl, rfl, rfl⟩)

/-! ## Sessions of a connection that opens them itself -/

/-- Every request so far was followed by a closing. -/
def Unused (steps : List Step) : Prop :=
  ∀ before step rest, steps = before ++ step :: rest → step.sends = true →
    ∃ later ∈ rest, later.closes = true

theorem unused_nil : Unused [] := by
  intro before step rest h
  simp at h

theorem unused_concat_iff {steps : List Step} {step : Step} :
    Unused (steps ++ [step]) ↔ step.closes = true ∨ step.sends = false ∧ Unused steps := by
  constructor
  · intro h
    by_cases hc : step.closes = true
    · exact .inl hc
    · refine .inr ⟨?_, fun before s rest hsteps hs => ?_⟩
      · by_contra hs
        obtain ⟨later, hlater, -⟩ := h steps step [] rfl (by simpa using hs)
        cases hlater
      · obtain ⟨later, hlater, hcloses⟩ := h before s (rest ++ [step]) (by simp [hsteps]) hs
        rcases List.mem_append.mp hlater with hlater | hlater
        · exact ⟨later, hlater, hcloses⟩
        · rw [List.mem_singleton.mp hlater] at hcloses
          exact absurd hcloses hc
  · intro h before s rest hsteps hs
    rcases List.eq_nil_or_concat rest with rfl | ⟨rest, last, rfl⟩
    · obtain ⟨rfl, hlast⟩ := List.append_inj' hsteps rfl
      obtain rfl := List.singleton_inj.mp hlast
      rcases h with hc | ⟨hn, -⟩
      · rw [Step.not_sends_of_closes hc] at hs
        cases hs
      · rw [hn] at hs
        cases hs
    · have hparts : steps ++ [step] = (before ++ s :: rest) ++ [last] := by simp [hsteps]
      obtain ⟨hsteps', hlast⟩ := List.append_inj' hparts rfl
      obtain rfl := List.singleton_inj.mp hlast
      rcases h with hc | ⟨-, hunused⟩
      · exact ⟨step, by simp, hc⟩
      · obtain ⟨later, hlater, hcloses⟩ := hunused before s rest hsteps' hs
        exact ⟨later, by simp [hlater], hcloses⟩

/-- The sessions of a connection that opens them itself, when these steps were taken: closed ones,
and the one in use unless no request came after the last closing. -/
structure OwnSessions (base : Text) (steps : List Step) (c : Connection) : Prop where
  baseUrl : c.baseUrl = base
  ownsSessions : c.ownsSessions = true
  sessions : ∃ old, (∀ s ∈ old, s.closed = true) ∧
    ((Unused steps ∧ c.current = none ∧ c.sessions = old) ∨
      ¬ Unused steps ∧
        ∃ s, s.closed = false ∧ c.current = some old.length ∧ c.sessions = old ++ [s])

theorem modify_concat {α : Type} (old : List α) (a : α) (f : α → α) :
    (old ++ [a]).modify old.length f = old ++ [f a] :=
  List.modifyTailIdx_add (List.modifyHead f) 0 old [a]

def openSessions (c : Connection) : List Session := c.sessions.filter fun s => !s.closed

theorem openSessions_of_concat {old : List Session} (hold : ∀ s ∈ old, s.closed = true)
    {s : Session} (hs : c.sessions = old ++ [s]) : c.openSessions.length ≤ 1 := by
  have hnone : old.filter (fun s => !s.closed) = [] := by
    rw [List.filter_eq_nil_iff]
    intro s hs
    simp [hold s hs]
  unfold openSessions
  rw [hs, List.filter_append, hnone, List.nil_append]
  exact List.length_filter_le _ [s]

namespace OwnSessions

variable {base : Text} {steps : List Step}

theorem of_open? {conf : Configuration} (h : open? conf false = some c) :
    OwnSessions c.baseUrl [] c := by
  unfold open? at h
  obtain ⟨url, -, rfl⟩ := Option.map_eq_some_iff.mp h
  exact ⟨rfl, rfl, [], by simp, .inl ⟨unused_nil, rfl, rfl⟩⟩

/-- When a request is sent, the session in use is the last one and open, and all others are closed.
It is a new one exactly if no request came after the last closing. -/
theorem useSession (h : OwnSessions base steps c) :
    ∃ old s, (∀ s ∈ old, s.closed = true) ∧ s.closed = false ∧
      c.useSession = (old.length, { c with sessions := old ++ [s], current := some old.length }) ∧
      ((Unused steps ∧ c.sessions = old) ∨ ¬ Unused steps ∧ c.sessions = old ++ [s]) := by
  obtain ⟨old, hold, ⟨hunused, hcurrent, hsessions⟩ | ⟨hused, s, hopen, hcurrent, hsessions⟩⟩ :=
    h.sessions
  · refine ⟨old, {}, hold, rfl, ?_, .inl ⟨hunused, hsessions⟩⟩
    rw [useSession_of_none hcurrent, hsessions]
  · refine ⟨old, s, hold, hopen, ?_, .inr ⟨hused, hsessions⟩⟩
    rw [useSession_of_some hcurrent, ← hsessions, ← hcurrent]

theorem openSessions_le (h : OwnSessions base steps c) : c.openSessions.length ≤ 1 := by
  obtain ⟨old, s, hold, -, -, ⟨-, hsessions⟩ | ⟨-, hsessions⟩⟩ := h.useSession
  · have hnone : c.openSessions = [] := by
      unfold openSessions
      rw [hsessions, List.filter_eq_nil_iff]
      intro s hs
      simp [hold s hs]
    simp [hnone]
  · exact openSessions_of_concat hold hsessions

theorem take_request (h : OwnSessions base steps c) {step : Step} {request : Text × Value}
    (hr : step.request? base = some request) (network : Network) :
    ∃ old s, (∀ s ∈ old, s.closed = true) ∧ s.closed = false ∧
      c.useSession.2.sessions = old ++ [s] ∧
      ((Unused steps ∧ c.sessions = old) ∨ ¬ Unused steps ∧ c.sessions = old ++ [s]) ∧
      step.take network c =
        { c with
          sessions := old ++ [{ s with posts := s.posts ++ [request] }]
          current := some old.length
          sent := c.sent + 1 } := by
  obtain ⟨old, s, hold, hopen, huse, hbefore⟩ := h.useSession
  refine ⟨old, s, hold, hopen, by rw [huse], hbefore, ?_⟩
  rw [take_of_request (by rw [h.baseUrl, hr]), huse]
  simp only [modify_concat]

theorem take_closes (h : OwnSessions base steps c) {step : Step} (hc : step.closes = true)
    (network : Network) :
    ∃ old, (∀ s ∈ old, s.closed = true) ∧ old.map Session.posts = c.sessions.map Session.posts ∧
      step.take network c = { c with sessions := old, current := none } := by
  rw [take_of_closes hc]
  obtain ⟨old, hold, ⟨-, hcurrent, hsessions⟩ | ⟨-, s, -, hcurrent, hsessions⟩⟩ := h.sessions
  · refine ⟨old, hold, by rw [hsessions], ?_⟩
    rw [close_of_none hcurrent, ← hsessions, ← hcurrent]
  · refine ⟨old ++ [{ s with closed := true }], ?_, by simp [hsessions], ?_⟩
    · intro t ht
      rcases List.mem_append.mp ht with ht | ht
      · exact hold t ht
      · rw [List.mem_singleton.mp ht]
    · rw [close_of_some h.ownsSessions hcurrent, hsessions, modify_concat]

/-- Every step keeps the sessions in order. -/
theorem take (h : OwnSessions base steps c) (network : Network) (step : Step) :
    OwnSessions base (steps ++ [step]) (step.take network c) := by
  rcases step_cases base step with ⟨request, hr, hs, hc⟩ | ⟨-, -, hc⟩ | ⟨-, hs, hc⟩
  · have hused : ¬ Unused (steps ++ [step]) := by
      rw [unused_concat_iff, hs, hc]
      simp
    obtain ⟨old, s, hold, hopen, -, -, htake⟩ := h.take_request hr network
    rw [htake]
    refine ⟨h.baseUrl, h.ownsSessions, old, hold, .inr ⟨hused, ?_⟩⟩
    exact ⟨{ s with posts := s.posts ++ [request] }, hopen, rfl, rfl⟩
  · have hunused : Unused (steps ++ [step]) := unused_concat_iff.mpr (.inl hc)
    obtain ⟨old, hold, -, htake⟩ := h.take_closes hc network
    rw [htake]
    exact ⟨h.baseUrl, h.ownsSessions, old, hold, .inl ⟨hunused, rfl, rfl⟩⟩
  · have hsame : Unused (steps ++ [step]) ↔ Unused steps := by
      rw [unused_concat_iff, hs, hc]
      simp
    rw [take_of_idle hs hc]
    refine ⟨h.baseUrl, h.ownsSessions, ?_⟩
    rw [hsame]
    exact h.sessions

theorem after (h : OwnSessions base [] c) (network : Network) (steps : List Step) :
    OwnSessions base steps (c.after network steps) := by
  induction steps using List.reverseRecOn with
  | nil => exact h
  | append_singleton steps step ih =>
    rw [after_concat]
    exact ih.take network step

end OwnSessions

/-- A request is added to a session that is open, and no other session changes. -/
def Posted (request : Text × Value) (c c' : Connection) : Prop :=
  ∃ before s rest, s.closed = false ∧ c.sessions = before ++ s :: rest ∧
    c'.sessions = before ++ { s with posts := s.posts ++ [request] } :: rest

/-- What a step that follows some others does to the sessions of a connection that opens them
itself. -/
structure Tidy (network : Network) (c : Connection) (steps : List Step) (step : Step) : Prop where
  /-- At every moment at most one of them is open. -/
  open_le : ∀ now ∈ step.moments network (c.after network steps), now.openSessions.length ≤ 1
  posted : ∀ request, step.request? c.baseUrl = some request →
    Posted request (c.after network steps).useSession.2 (c.after network (steps ++ [step]))
  not_posted : step.request? c.baseUrl = none →
    (c.after network (steps ++ [step])).sessions.map Session.posts =
      (c.after network steps).sessions.map Session.posts
  /-- A request opens one if none was sent since the connection was made or closed last. -/
  opened : step.sends = true → Unused steps →
    (c.after network (steps ++ [step])).sessions.length =
      (c.after network steps).sessions.length + 1
  not_opened : ¬ (step.sends = true ∧ Unused steps) →
    (c.after network (steps ++ [step])).sessions.length = (c.after network steps).sessions.length
  closed : step.closes = true → ∀ s ∈ (c.after network (steps ++ [step])).sessions, s.closed = true

namespace OwnSessions

variable {steps : List Step}

theorem open_le_at_moments (h : OwnSessions c.baseUrl [] c) (network : Network) (steps : List Step)
    (step : Step) :
    ∀ now ∈ step.moments network (c.after network steps), now.openSessions.length ≤ 1 := by
  have hnow := h.after network steps
  have hnext := hnow.take network step
  intro now hm
  unfold Step.moments at hm
  split_ifs at hm
  · rcases List.mem_cons.mp hm with rfl | hm
    · obtain ⟨old, s, hold, -, huse, -⟩ := hnow.useSession
      rw [huse]
      exact openSessions_of_concat hold rfl
    · rw [List.mem_singleton.mp hm]
      exact hnext.openSessions_le
  · rw [List.mem_singleton.mp hm]
    exact hnext.openSessions_le

theorem tidy_request (h : OwnSessions c.baseUrl [] c) (network : Network) (steps : List Step)
    {step : Step} {request : Text × Value} (hr : step.request? c.baseUrl = some request)
    (hs : step.sends = true) (hc : step.closes = false) : Tidy network c steps step := by
  obtain ⟨old, s, -, hopen, huse, hbefore, htake⟩ := (h.after network steps).take_request hr network
  rw [← after_concat] at htake
  constructor
  · exact h.open_le_at_moments network steps step
  · intro request' hr'
    obtain rfl := Option.some.inj (hr.symm.trans hr')
    exact ⟨old, s, [], hopen, huse, by rw [htake]⟩
  · intro hnone
    rw [hr] at hnone
    cases hnone
  · intro _ hunused
    rcases hbefore with ⟨-, hbefore⟩ | ⟨hused, -⟩
    · simp [htake, hbefore]
    · exact absurd hunused hused
  · intro hnot
    rcases hbefore with ⟨hunused, -⟩ | ⟨-, hbefore⟩
    · exact absurd ⟨hs, hunused⟩ hnot
    · simp [htake, hbefore]
  · intro hcloses
    rw [hc] at hcloses
    cases hcloses

/-- A step that sends nothing only has to keep the requests, and to close when it is told to. -/
theorem tidy_of_not_sends (h : OwnSessions c.baseUrl [] c) (network : Network)
    (steps : List Step) {step : Step} (hr : step.request? c.baseUrl = none)
    (hs : step.sends = false)
    (hposts : (c.after network (steps ++ [step])).sessions.map Session.posts =
      (c.after network steps).sessions.map Session.posts)
    (hclosed : step.closes = true →
      ∀ s ∈ (c.after network (steps ++ [step])).sessions, s.closed = true) :
    Tidy network c steps step where
  open_le := h.open_le_at_moments network steps step
  posted request hsome := by
    rw [hr] at hsome
    cases hsome
  not_posted _ := hposts
  opened hsends := by
    rw [hs] at hsends
    cases hsends
  not_opened _ := by simpa using congrArg List.length hposts
  closed := hclosed

theorem tidy_closes (h : OwnSessions c.baseUrl [] c) (network : Network) (steps : List Step)
    {step : Step} (hr : step.request? c.baseUrl = none) (hs : step.sends = false)
    (hc : step.closes = true) : Tidy network c steps step := by
  obtain ⟨old, hold, hposts, htake⟩ := (h.after network steps).take_closes hc network
  rw [← after_concat] at htake
  refine h.tidy_of_not_sends network steps hr hs ?_ fun _ => ?_
  · rw [htake, ← hposts]
  · rw [htake]
    exact hold

theorem tidy_idle (h : OwnSessions c.baseUrl [] c) (network : Network) (steps : List Step)
    {step : Step} (hr : step.request? c.baseUrl = none) (hs : step.sends = false)
    (hc : step.closes = false) : Tidy network c steps step := by
  refine h.tidy_of_not_sends network steps hr hs ?_ fun hcloses => ?_
  · rw [after_concat, take_of_idle hs hc]
  · rw [hc] at hcloses
    cases hcloses

theorem tidy (h : OwnSessions c.baseUrl [] c) (network : Network) (steps : List Step)
    (step : Step) : Tidy network c steps step := by
  rcases step_cases c.baseUrl step with ⟨request, hr, hs, hc⟩ | ⟨hr, hs, hc⟩ | ⟨hr, hs, hc⟩
  · exact h.tidy_request network steps hr hs hc
  · exact h.tidy_closes network steps hr hs hc
  · exact h.tidy_idle network steps hr hs hc

end OwnSessions

/-! ## A session that was handed over -/

/-- The one session of a connection that it was handed to, with the requests sent so far. -/
structure HandedSession (base : Text) (posts : List (Text × Value)) (c : Connection) : Prop where
  baseUrl : c.baseUrl = base
  ownsSessions : c.ownsSessions = false
  current : c.current = some 0
  sessions : c.sessions = [⟨posts, false⟩]

namespace HandedSession

variable {base : Text} {posts : List (Text × Value)}

theorem of_open? {conf : Configuration} (h : open? conf true = some c) :
    HandedSession c.baseUrl [] c := by
  unfold open? at h
  obtain ⟨url, -, rfl⟩ := Option.map_eq_some_iff.mp h
  exact ⟨rfl, rfl, rfl, rfl⟩

theorem take (h : HandedSession base posts c) (network : Network) (step : Step) :
    HandedSession base (posts ++ (step.request? base).toList) (step.take network c) := by
  rcases step_cases base step with ⟨request, hr, -, -⟩ | ⟨hr, -, hc⟩ | ⟨hr, hs, hc⟩
  · rw [take_of_request (by rw [h.baseUrl, hr]), useSession_of_some h.current, h.sessions, hr]
    exact ⟨h.baseUrl, h.ownsSessions, h.current, rfl⟩
  · rw [take_of_closes hc, close_of_not_owns h.ownsSessions, hr]
    simpa using h
  · rw [take_of_idle hs hc, hr]
    simpa using h

theorem after (h : HandedSession base [] c) (network : Network) (steps : List Step) :
    HandedSession base (steps.filterMap (Step.request? base)) (c.after network steps) := by
  induction steps using List.reverseRecOn with
  | nil => exact h
  | append_singleton steps step ih =>
    rw [after_concat, List.filterMap_append]
    have hlast : [step].filterMap (Step.request? base) = (step.request? base).toList := by
      cases hr : step.request? base <;> simp [hr]
    rw [hlast]
    exact ih.take network step

theorem sessions_at_moments (h : HandedSession base posts c) (network : Network) (step : Step) :
    ∀ now ∈ step.moments network c, ∃ posts, now.sessions = [⟨posts, false⟩] := by
  have hnext := h.take network step
  intro now hm
  unfold Step.moments at hm
  split_ifs at hm
  · rcases List.mem_cons.mp hm with rfl | hm
    · rw [useSession_of_some h.current]
      exact ⟨posts, h.sessions⟩
    · rw [List.mem_singleton.mp hm]
      exact ⟨_, hnext.sessions⟩
  · rw [List.mem_singleton.mp hm]
    exact ⟨_, hnext.sessions⟩

end HandedSession

/-- A connection without a session opens one for its first request and for the first one after each
closing, sends every request through an open session, never has two of them open and closes all of
them when it is closed. A connection with a session that it was handed opens none, never closes that
one and sends every request through it. -/
theorem sessions_in_use {conf : Configuration} {handedOver : Bool} {c : Connection}
    (h : open? conf handedOver = some c) (network : Network) (steps : List Step) :
    (handedOver = false → c.sessions = [] ∧ ∀ step, Tidy network c steps step) ∧
      (handedOver = true →
        (c.after network steps).sessions =
            [{ posts := steps.filterMap (Step.request? c.baseUrl), closed := false }] ∧
          ∀ (step : Step), ∀ now ∈ step.moments network (c.after network steps),
            ∃ posts, now.sessions = [{ posts, closed := false }]) := by
  constructor
  · rintro rfl
    refine ⟨?_, fun step => (OwnSessions.of_open? h).tidy network steps step⟩
    unfold open? at h
    obtain ⟨url, -, rfl⟩ := Option.map_eq_some_iff.mp h
    rfl
  · rintro rfl
    have hafter := (HandedSession.of_open? h).after network steps
    exact ⟨hafter.sessions, hafter.sessions_at_moments network⟩

def timingOut : Network := fun _ => .raised ⟨.timeout, []⟩

def reopening : List Step := [.enter, .call "m".toList .null, .leave, .file 3]

def handedConnection : Connection :=
  { freshConnection with ownsSessions := false, sessions := [{}], current := some 0 }

theorem sessions_in_use_reopened :
    (open? { somePortal with token := some "key".toList } false = some freshConnection ∧
      (freshConnection.sessions = [] ∧ ∀ step, Tidy timingOut freshConnection reopening step) ∧
      (freshConnection.after timingOut reopening).sessions.map Session.closed = [true, false]) ∧
    open? { somePortal with token := some "key".toList } true = some handedConnection ∧
      (handedConnection.after timingOut reopening).sessions =
        [⟨reopening.filterMap (Step.request? handedConnection.baseUrl), false⟩] := by
  have hopen : open? { somePortal with token := some "key".toList } false =
      some freshConnection := rfl
  have hhanded : open? { somePortal with token := some "key".toList } true =
      some handedConnection := rfl
  constructor
  · exact ⟨hopen, (sessions_in_use hopen timingOut reopening).1 rfl, rfl⟩
  · exact ⟨hhanded, ((sessions_in_use hhanded timingOut reopening).2 rfl).1⟩

end Connection

end TaskBulletin.Portal
