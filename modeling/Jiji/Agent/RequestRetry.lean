import Jiji.Agent.Connections

/-!
# Retrying a failed request

An agent records the answer to a request under its idempotency key, whatever the answer is.  A
request that failed is therefore executed again only if its answer was not recorded.
-/

namespace Jiji
namespace Agent

/-- A request as it is served: the bytes that the database occupies then, and whether the
database takes its answer. -/
structure ServedRequest where
  key : Option String
  body : RequestBody
  usedBytes : ℕ
  recorded : Bool

/-- What happens to an agent: a request, or a change that replication, reconciliation or a
restart makes to anything but the recorded answers. -/
inductive AgentHistory
  | request (request : ServedRequest)
  | elsewhere (change : AgentApi)

namespace AgentApi

variable (hash : ContentHash)

/-- Serve a request, with whether its body is executed.  The answer is recorded if the database
takes it. -/
def serve (api : AgentApi) (request : ServedRequest) : (ApiResult × Bool) × AgentApi :=
  match request.key with
  | none =>
      let (result, next) := api.handle hash request.usedBytes request.body
      ((result, true), next)
  | some key =>
      match api.responses[key]? with
      | some cached => ((cached, false), api)
      | none =>
          let (result, next) := api.handle hash request.usedBytes request.body
          ((result, true), if request.recorded
            then { next with responses := next.responses.insert key result } else next)

/-- The agent after something happened to it. -/
def undergo (api : AgentApi) : AgentHistory → AgentApi
  | .request request => (api.serve hash request).2
  | .elsewhere change => { change with responses := api.responses }

variable {hash} {api : AgentApi} {key : String} {request : ServedRequest}

theorem responses_handle (usedBytes : ℕ) (body : RequestBody) :
    (api.handle hash usedBytes body).2.responses = api.responses :=
  congrArg (fun served => served.2.responses)
    (handle_withResponses hash usedBytes api api.responses body)

/-- A key stays without an answer unless one is recorded under it. -/
theorem responses_serve_eq_none_iff :
    (api.serve hash request).2.responses[key]? = none ↔
      api.responses[key]? = none ∧ (request.key = some key → request.recorded = false) := by
  unfold serve
  cases keyed : request.key with
  | none => simp [responses_handle]
  | some other =>
      dsimp only
      cases known : api.responses[other]? with
      | some cached =>
          refine ⟨fun free => ⟨free, ?_⟩, And.left⟩
          rintro ⟨⟩
          rw [known] at free
          cases free
      | none =>
          cases taken : request.recorded with
          | false => simp [responses_handle]
          | true =>
              simp only [if_true, Std.ExtTreeMap.getElem?_insert, responses_handle,
                Std.compare_eq_iff_eq, Option.some.injEq]
              split <;> simp_all

theorem responses_undergo_eq_none_iff (history : List AgentHistory) :
    (history.foldl (undergo hash) api).responses[key]? = none ↔
      api.responses[key]? = none ∧ ∀ request, .request request ∈ history →
        request.key = some key → request.recorded = false := by
  induction history generalizing api with
  | nil => simp
  | cons event history inductionHypothesis =>
      rw [List.foldl_cons, inductionHypothesis]
      cases event with
      | request request =>
          rw [undergo, responses_serve_eq_none_iff]
          simp [or_imp, forall_and, and_assoc]
      | elsewhere change => simp [undergo]

/-- A recorded answer stays. -/
theorem responses_serve_of_some
    (known : api.responses[key]? = some cached) :
    (api.serve hash request).2.responses[key]? = some cached := by
  unfold serve
  cases request.key with
  | none => simpa [responses_handle] using known
  | some other =>
      dsimp only
      cases unknown : api.responses[other]? with
      | some _ => exact known
      | none =>
          have different : other ≠ key := by
            rintro rfl
            rw [known] at unknown
            cases unknown
          dsimp only
          split
          · simpa [Std.ExtTreeMap.getElem?_insert, different, responses_handle] using known
          · rwa [responses_handle]

theorem responses_undergo_of_some
    (history : List AgentHistory)
    (known : api.responses[key]? = some cached) :
    (history.foldl (undergo hash) api).responses[key]? = some cached := by
  induction history generalizing api with
  | nil => exact known
  | cons event history inductionHypothesis =>
      refine inductionHypothesis ?_
      cases event with
      | request request => exact responses_serve_of_some known
      | elsewhere change => exact known

/-- A request that failed is repeated its error if that was recorded. -/
theorem serve_of_recorded
    (history : List AgentHistory)
    (keyed : first.key = some key)
    (same : retry.key = first.key)
    (fresh : api.responses[key]? = none)
    (failed : api.handle hash first.usedBytes first.body = (.error error, api))
    (recorded : first.recorded = true) :
    (((AgentHistory.request first :: history).foldl (undergo hash) api).serve hash retry).1 =
      (.error error, false) := by
  have known : (undergo hash api (.request first)).responses[key]? = some (.error error) := by
    simp [undergo, serve, keyed, fresh, failed, recorded]
  have kept : (history.foldl (undergo hash) _).responses[key]? = _ :=
    responses_undergo_of_some history known
  rw [List.foldl_cons, serve, same, keyed]
  dsimp only
  rw [kept]

/-- A request that failed is executed when it is sent again, and succeeds where its body does,
if and only if no answer was recorded under its key so far.  If the first one was, it is told the
error again. -/
theorem failed_request_retried_iff
    (hash : ContentHash)
    (api : AgentApi)
    (key : String)
    (first retry : ServedRequest)
    (error : ApiError)
    (history : List AgentHistory)
    (response : ResponseBody)
    (next : AgentApi)
    (keyed : first.key = some key)
    (same : retry.key = first.key ∧ retry.body = first.body)
    (fresh : api.responses[key]? = none)
    (failed : api.handle hash first.usedBytes first.body = (.error error, api))
    (succeeds : ((AgentHistory.request first :: history).foldl (undergo hash) api).handle hash
      retry.usedBytes retry.body = (.ok response, next)) :
    ((((AgentHistory.request first :: history).foldl (undergo hash) api).serve hash retry).1 =
        (.ok response, true) ↔
      ∀ request, .request request ∈ AgentHistory.request first :: history →
        request.key = some key → request.recorded = false) ∧
    (first.recorded = true →
      (((AgentHistory.request first :: history).foldl (undergo hash) api).serve hash retry).1 =
        (.error error, false)) := by
  refine ⟨?_, serve_of_recorded history keyed same.1 fresh failed⟩
  have free := @responses_undergo_eq_none_iff hash api key (.request first :: history)
  generalize (AgentHistory.request first :: history).foldl (undergo hash) api = state at *
  rw [serve, same.1, keyed]
  dsimp only
  cases known : state.responses[key]? with
  | none =>
      rw [known] at free
      simpa [succeeds] using (free.mp rfl).2
  | some cached =>
      rw [known] at free
      have recorded := mt free.mpr (by simp)
      simpa using fun unrecorded => recorded ⟨fresh, unrecorded⟩

/-- An agent without any member. -/
def lonelyApi : AgentApi where
  store := AgentStore.empty.setSoftQuotaBytes none
  leases := .empty
  responses := ∅
  retentionSpecs := []
  catalogIdentity := some ⟨"p", 1, "a"⟩

/-- The agent after its own membership has reached it. -/
def joinedApi : AgentApi := sampleServer.store

/-- A request to scale a service. -/
def sampleScale (recorded : Bool) : ServedRequest :=
  ⟨some "k", .desiredCommit "web" (some 3), 0, recorded⟩

theorem sampleScale_fails :
    lonelyApi.handle AgentStore.historyHash 0 (.desiredCommit "web" (some 3)) =
      (.error noLocalMember, lonelyApi) := by
  have answer : (lonelyApi.store.desiredCommit AgentStore.historyHash ⟨"p", 1, "a"⟩ 0 "web"
      (some 3)).map Prod.fst = .error noLocalMember := by
    decide +kernel
  cases committed : lonelyApi.store.desiredCommit AgentStore.historyHash ⟨"p", 1, "a"⟩ 0 "web"
      (some 3) with
  | error error =>
      rw [committed] at answer
      cases answer
      simp only [handle, lonelyApi] at committed ⊢
      rw [committed]
  | ok result =>
      rw [committed] at answer
      cases answer

/-- After its membership has arrived the agent scales the service. -/
theorem joinedApi_scales (responses : Std.ExtTreeMap String ApiResult) :
    ∃ response next, { joinedApi with responses := responses }.handle AgentStore.historyHash 0
      (.desiredCommit "web" (some 3)) = (.ok response, next) := by
  have succeeds : (joinedApi.handle AgentStore.historyHash 0
      (.desiredCommit "web" (some 3))).1.isOk = true := by
    decide +kernel
  rw [handle_withResponses]
  cases answer : (joinedApi.handle AgentStore.historyHash 0
      (.desiredCommit "web" (some 3))).1 with
  | error error =>
      rw [answer] at succeeds
      cases succeeds
  | ok response => exact ⟨response, _, rfl⟩

theorem failed_request_retried_iff_unrecorded :
    ∃ response, (([AgentHistory.request (sampleScale false), .elsewhere joinedApi].foldl
      (undergo AgentStore.historyHash) lonelyApi).serve AgentStore.historyHash
        (sampleScale true)).1 = (.ok response, true) := by
  have known : ∃ response next, ([AgentHistory.request (sampleScale false),
      .elsewhere joinedApi].foldl (undergo AgentStore.historyHash) lonelyApi).handle
        AgentStore.historyHash 0 (.desiredCommit "web" (some 3)) = (.ok response, next) := by
    exact joinedApi_scales _
  obtain ⟨response, next, succeeds⟩ := known
  refine ⟨response, (failed_request_retried_iff AgentStore.historyHash lonelyApi "k"
    (sampleScale false) (sampleScale true) _ [.elsewhere joinedApi] response next rfl ⟨rfl, rfl⟩
    (by simp [lonelyApi]) sampleScale_fails succeeds).1.mpr ?_⟩
  simp [sampleScale]

/-- An agent whose membership has arrived would scale the service, but it repeats the recorded
error. -/
theorem recorded_error_is_repeated :
    (([AgentHistory.request (sampleScale true), .elsewhere joinedApi].foldl
      (undergo AgentStore.historyHash) lonelyApi).serve AgentStore.historyHash
        (sampleScale true)).1 = (.error noLocalMember, false) ∧
    ∃ response next, ([AgentHistory.request (sampleScale true), .elsewhere joinedApi].foldl
      (undergo AgentStore.historyHash) lonelyApi).handle AgentStore.historyHash 0
        (.desiredCommit "web" (some 3)) = (.ok response, next) :=
  ⟨serve_of_recorded [.elsewhere joinedApi] rfl rfl (by simp [lonelyApi]) sampleScale_fails rfl,
    joinedApi_scales _⟩

end AgentApi

end Agent
end Jiji
