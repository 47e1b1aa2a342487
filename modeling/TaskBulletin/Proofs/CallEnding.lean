import TaskBulletin.Portal.Connection

/-!
# How a call to the portal ends

By its documentation a call ends in a timeout, in an error of the portal with a status and
a code, or in the body that came back, and each exchange has one of these endings. A call
ends in it exactly if the body that it is to hand back has no timing or one that is an
object: any other timing that holds makes the call fail in a way of its own.
-/

namespace TaskBulletin.Portal

/-! ## Documented endings -/

inductive Ending where
  | timeout
  /-- An error of the portal, or of the way to it. -/
  | refused (status : Int) (code : Text)
  | body (b : Body)

/-- The ending that a caller sees; a failure of any other kind is none. -/
def endingOf? : Except CallError Body → Option Ending
  | .ok b => some (.body b)
  | .error (.timedOut _) => some .timeout
  | .error e => e.details?.map fun (status, _, code) => .refused status code

namespace Exchange

/-- The fault of an exchange, while it was sent or while its response was read. -/
def fault? : Exchange → Option Fault
  | raised f => some f
  | answered _ _ (.unreadable f) => some f
  | answered _ _ (.body _ _) => none

def status : Exchange → Int
  | raised _ => 0
  | answered status _ _ => status

def object? : Exchange → Option Body
  | answered _ _ (.body (.object body) _) => some body
  | _ => none

/-- Nothing is raised but timeouts and failures of the HTTP client, and a body may be no JSON. -/
def Foreseen : Exchange → Prop
  | raised f => f.kind.isTimeout ∨ f.kind.isClient
  | answered _ _ (.unreadable f) => f.kind.isTimeout ∨ f.kind.isClient ∨ f.kind = .value
  | answered _ _ (.body _ _) => True

/-- The ending of an exchange by the documentation, clause by clause. -/
def ending (x : Exchange) : Ending :=
  if x.fault?.any fun f => f.kind.isTimeout then .timeout
  else if x.fault?.any fun f => f.kind.isClient then .refused 0 []
  else if 500 ≤ x.status then .refused x.status []
  else
    match x.object? with
    | none => .refused x.status []
    | some body =>
      match Value.lookup "error" body with
      | some error => .refused x.status error.print
      | none => .body body

/-- The body that is to be handed back has a timing that holds and is not an object. -/
def OddlyTimed (x : Exchange) : Prop :=
  ∃ body v, x.ending = .body body ∧ Value.lookup "time" body = some v ∧ v.holds = true ∧
    ∀ fields, v ≠ .object fields

end Exchange

/-! ## What an exchange comes to -/

theorem timing_cases (body : Body) :
    (∃ fields, timing body = .ok fields ∧
        ∀ v, Value.lookup "time" body = some v → v.holds = true → ∃ fields, v = .object fields) ∨
      ∃ v, timing body = .error (.timingKind v.kind) ∧ Value.lookup "time" body = some v ∧
        v.holds = true ∧ ∀ fields, v ≠ .object fields := by
  rw [timing]
  cases hv : (Value.lookup "time" body).filter Value.holds with
  | none =>
    refine .inl ⟨[], rfl, fun v hlookup hholds => ?_⟩
    rw [hlookup, Option.filter_some, if_pos hholds] at hv
    cases hv
  | some v =>
    obtain ⟨hlookup, hholds⟩ := Option.filter_eq_some_iff.mp hv
    cases v with
    | object fields =>
      refine .inl ⟨fields, rfl, fun v hv _ => ⟨fields, ?_⟩⟩
      exact Option.some.inj (hv.symm.trans hlookup)
    | _ => exact .inr ⟨_, rfl, hlookup, hholds, by simp⟩

/-- An exchange ends as documented, or its answer is oddly timed and it fails for that. -/
def EndsAsDocumented (x : Exchange) (r : Except CallError Body) : Prop :=
  (endingOf? r = some x.ending ∧ ¬ x.OddlyTimed) ∨
    ((∃ kind, r = .error (.timingKind kind)) ∧ x.OddlyTimed)

/-- An exchange that hands no body back is not oddly timed. -/
theorem endsAsDocumented_of_ending {x : Exchange} {r : Except CallError Body} {e : Ending}
    (hx : x.ending = e) (hr : endingOf? r = some e) (he : ∀ body, e ≠ .body body) :
    EndsAsDocumented x r := by
  obtain rfl := hx
  refine .inl ⟨hr, ?_⟩
  rintro ⟨body, _, hbody, -⟩
  exact he body hbody

theorem settleFault_ending {method : Text} {x : Exchange} {f : Fault} (hf : x.fault? = some f)
    (h : f.kind.isTimeout ∨ f.kind.isClient) :
    EndsAsDocumented x (settleFault method f).1 := by
  rw [settleFault]
  cases ht : f.kind.isTimeout with
  | true =>
    have hx : x.ending = .timeout := by simp [Exchange.ending, hf, ht]
    exact endsAsDocumented_of_ending hx rfl nofun
  | false =>
    have hc : f.kind.isClient = true := by simpa [ht] using h
    have hx : x.ending = .refused 0 [] := by simp [Exchange.ending, hf, ht, hc]
    rw [if_neg (by simp), if_pos hc]
    exact endsAsDocumented_of_ending hx rfl nofun

theorem endsAsDocumented_bad {method : Text} {x : Exchange} (h : x.ending = .refused x.status []) :
    EndsAsDocumented x (.error (.httpStatus method x.status)) :=
  endsAsDocumented_of_ending h rfl nofun

theorem settleObject_ending {method : Text} {x : Exchange} {body : Body}
    (hx : x.ending = match Value.lookup "error" body with
      | some error => .refused x.status error.print
      | none => .body body) :
    EndsAsDocumented x (settleObject method x.status body).1 := by
  rw [settleObject]
  cases he : Value.lookup "error" body with
  | some error =>
    rw [he] at hx
    exact endsAsDocumented_of_ending hx rfl nofun
  | none =>
    rw [he] at hx
    rcases timing_cases body with ⟨fields, ht, hfields⟩ | ⟨v, ht, hlookup, hholds, hv⟩
    · refine .inl ⟨by rw [hx, ht]; rfl, ?_⟩
      rintro ⟨body', v, hbody, hlookup, hholds, hv⟩
      obtain rfl := Ending.body.inj (hx.symm.trans hbody)
      obtain ⟨fields', hf⟩ := hfields v hlookup hholds
      exact hv fields' hf
    · rw [ht]
      exact .inr ⟨⟨v.kind, rfl⟩, body, v, hx, hlookup, hholds, hv⟩

theorem settleBody_ending {method : Text} {x : Exchange} {v : Value}
    (hfault : ∀ f, x.fault? = some f → f.kind.isTimeout = false ∧ f.kind.isClient = false)
    (hobject : ∀ body, x.object? = some body ↔ v = .object body) :
    EndsAsDocumented x (settleBody method x.status v).1 := by
  have hending : x.ending = if 500 ≤ x.status then .refused x.status [] else
      match x.object? with
      | none => .refused x.status []
      | some body =>
        match Value.lookup "error" body with
        | some error => .refused x.status error.print
        | none => .body body := by
    rw [Exchange.ending]
    cases hf : x.fault? with
    | none => simp
    | some f => simp [hfault f hf]
  unfold settleBody
  by_cases hs : 500 ≤ x.status
  · rw [if_pos hs] at hending ⊢
    exact endsAsDocumented_bad hending
  · rw [if_neg hs] at hending ⊢
    cases ho : x.object? with
    | none =>
      have hv (body : Body) : v ≠ .object body := fun h => by
        rw [(hobject body).mpr h] at ho
        cases ho
      rw [ho] at hending
      cases v with
      | object body => exact absurd rfl (hv body)
      | _ => exact endsAsDocumented_bad hending
    | some body =>
      obtain rfl := (hobject body).mp ho
      rw [ho] at hending
      exact settleObject_ending hending

theorem settle_ending (method : Text) {x : Exchange} (h : x.Foreseen) :
    EndsAsDocumented x (settle method x).1 := by
  rcases x with f | ⟨status, hs, ⟨v, hv⟩ | f⟩
  · exact settleFault_ending rfl h
  · exact settleBody_ending (x := .answered status hs (.body v hv)) (by simp [Exchange.fault?])
      (by cases v <;> simp [Exchange.object?])
  · rw [settle]
    split
    · rename_i hk
      refine settleBody_ending (x := .answered status hs (.unreadable f)) (fun g hg => ?_)
        (by simp [Exchange.object?])
      obtain rfl := Option.some.inj hg
      rw [hk]
      exact ⟨rfl, rfl⟩
    · rename_i hk
      exact settleFault_ending rfl (h.imp id fun h => h.resolve_right hk)

/-! ## Calls -/

theorem sent_useSession (c : Connection) : c.useSession.2.sent = c.sent := by
  rw [Connection.useSession]
  cases c.current <;> rfl

theorem call_eq_settle (network : Network) (c : Connection) (method : Text) (params : Value) :
    (c.call network method params).1 = (settle method (network c.sent)).1 := by
  rw [← sent_useSession]
  rfl

/-- When nothing unforeseen is raised, a call ends as documented exactly if no oddly timed body is
to be handed back; then it fails for the kind of the timing. -/
theorem call_ends_as_documented_iff (network : Network) (c : Connection) (method : Text)
    (params : Value) (h : (network c.sent).Foreseen) :
    (endingOf? (c.call network method params).1 = some (network c.sent).ending ↔
        ¬ (network c.sent).OddlyTimed) ∧
      ((network c.sent).OddlyTimed →
        ∃ kind, (c.call network method params).1 = .error (.timingKind kind)) := by
  rw [call_eq_settle]
  rcases settle_ending method h with ⟨hending, hnot⟩ | ⟨⟨kind, hkind⟩, hodd⟩
  · exact ⟨⟨fun _ => hnot, fun _ => hending⟩, fun hodd => absurd hodd hnot⟩
  · refine ⟨⟨fun hending => ?_, fun hnot => absurd hodd hnot⟩, fun _ => ⟨kind, hkind⟩⟩
    rw [hkind] at hending
    cases hending

def freshConnection : Connection :=
  ⟨"https://portal.example/rest/7/key/".toList, Configuration.defaultTimeout, true, [], none, 0⟩

/-- A timeout that the HTTP client itself reports is a timeout. -/
theorem call_ends_as_documented_serverTimeout :
    (Exchange.raised ⟨.serverTimeout, []⟩).Foreseen ∧
      (endingOf? (freshConnection.call (fun _ => .raised ⟨.serverTimeout, []⟩) "m".toList .null).1 =
          some (Exchange.raised ⟨.serverTimeout, []⟩).ending ↔
        ¬ (Exchange.raised ⟨.serverTimeout, []⟩).OddlyTimed) ∧
      endingOf? (freshConnection.call (fun _ => .raised ⟨.serverTimeout, []⟩) "m".toList .null).1 =
        some .timeout := by
  have h : (Exchange.raised ⟨.serverTimeout, []⟩).Foreseen := .inl rfl
  exact ⟨h, (call_ends_as_documented_iff _ _ _ _ h).1, rfl⟩

/-- An answer with the status of success. -/
def accepted (v : Value) (h : v.writable = true) : Exchange := .answered 200 (by decide) (.body v h)

def textTimed : Exchange :=
  accepted (.object [("result".toList, .int 1), ("time".toList, .text "soon".toList)]) (by decide)

/-- The body is to be handed back, and the call fails. -/
theorem call_not_documented_textTimed :
    textTimed.Foreseen ∧
      (∃ body, textTimed.ending = .body body) ∧
      (freshConnection.call (fun _ => textTimed) "m".toList .null).1 = .error (.timingKind "str") ∧
      endingOf? (freshConnection.call (fun _ => textTimed) "m".toList .null).1 ≠
        some textTimed.ending := by
  refine ⟨trivial, ⟨_, rfl⟩, rfl, fun h => ?_⟩
  cases h

end TaskBulletin.Portal
