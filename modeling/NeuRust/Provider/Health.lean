import NeuRust.Provider.Upstream

/-!
The health of a provider, as its health check reads it off the answer to one small request.
-/

namespace NeuRust

inductive HealthStatus where
  | healthy
  | degraded
  | down
  deriving DecidableEq

def HealthStatus.display : HealthStatus → Str
  | .healthy => "healthy".toList
  | .degraded => "degraded".toList
  | .down => "down".toList

structure ProviderHealth where
  status : HealthStatus
  latencyMs : BitVec 64
  error : Option Str
  deriving DecidableEq

namespace Provider

/-- What a health check makes of the answer to `GET /v1/models`. -/
def openAiHealth (elapsedMs : BitVec 64) (answer : Except Error HttpResponse) : ProviderHealth :=
  match answer with
  | .ok resp =>
      if resp.isSuccess then ⟨.healthy, elapsedMs, none⟩
      else ⟨.degraded, elapsedMs, some ("HTTP ".toList ++ resp.statusText)⟩
  | .error e => ⟨.down, elapsedMs, some e.display⟩

/-- What a health check makes of the answer to a message of one token. The status 400 shows that
the service is reachable and the key is good. -/
def anthropicHealth (elapsedMs : BitVec 64) (answer : Except Error HttpResponse) :
    ProviderHealth :=
  match answer with
  | .ok resp =>
      if resp.isSuccess ∨ resp.status = 400 then ⟨.healthy, elapsedMs, none⟩
      else if resp.status = 401 ∨ resp.status = 403 then
        ⟨.degraded, elapsedMs, some ("Auth error: HTTP ".toList ++ resp.statusText)⟩
      else ⟨.degraded, elapsedMs, some ("HTTP ".toList ++ resp.statusText)⟩
  | .error e => ⟨.down, elapsedMs, some e.display⟩

end Provider

/-- A check reports an error exactly when the provider is not healthy. -/
def ProviderHealth.Explained (health : ProviderHealth) : Prop :=
  health.error = none ↔ health.status = .healthy

namespace Provider

theorem openAiHealth_explained (elapsedMs : BitVec 64) (answer : Except Error HttpResponse) :
    (openAiHealth elapsedMs answer).Explained := by
  cases answer with
  | error e => simp [openAiHealth, ProviderHealth.Explained]
  | ok resp =>
      rw [openAiHealth, ProviderHealth.Explained]
      split_ifs <;> simp

theorem anthropicHealth_explained (elapsedMs : BitVec 64) (answer : Except Error HttpResponse) :
    (anthropicHealth elapsedMs answer).Explained := by
  cases answer with
  | error e => simp [anthropicHealth, ProviderHealth.Explained]
  | ok resp =>
      rw [anthropicHealth, ProviderHealth.Explained]
      split_ifs <;> simp

theorem down_iff (elapsedMs : BitVec 64) (answer : Except Error HttpResponse) :
    ((openAiHealth elapsedMs answer).status = .down ↔ ∃ e, answer = .error e) ∧
      ((anthropicHealth elapsedMs answer).status = .down ↔ ∃ e, answer = .error e) := by
  cases answer with
  | error e => simp [openAiHealth, anthropicHealth]
  | ok resp =>
      simp only [openAiHealth, anthropicHealth]
      constructor
      · split_ifs <;> simp
      · split_ifs <;> simp

end Provider

end NeuRust
