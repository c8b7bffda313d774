import NeuRust.Contracts

/-!
The provider registry: the registered providers in their order, and the two first-match searches,
by model and by name.
-/

namespace NeuRust

structure ProviderConfig where
  id : Str
  providerType : Str
  apiKeyEnv : Str
  baseUrl : Option Str
  models : List Str
  priority : Option (BitVec 32)
  maxConnections : Option (BitVec 32)

structure ProviderRegistry (σ : Type*) where
  providers : List (Provider σ)

namespace ProviderRegistry

variable {σ : Type*}

def new : ProviderRegistry σ := ⟨[]⟩

def register (provider : Provider σ) (registry : ProviderRegistry σ) : ProviderRegistry σ :=
  ⟨registry.providers ++ [provider]⟩

def getProvider (registry : ProviderRegistry σ) (model : Str) : Option (Provider σ) :=
  registry.providers.find? fun p => p.Supports model

def getByName (registry : ProviderRegistry σ) (name : Str) : Option (Provider σ) :=
  registry.providers.find? fun p => p.name = name

def supporting (registry : ProviderRegistry σ) (model : Str) : List (Provider σ) :=
  registry.providers.filter fun p => p.Supports model

/-- One configuration: registered if its type is known and its key is set. The two providers are
built from the configuration and the key. -/
def registerConfig (env : Str → Option Str) (openAi anthropic : ProviderConfig → Str → Provider σ)
    (registry : ProviderRegistry σ) (cfg : ProviderConfig) : ProviderRegistry σ :=
  if cfg.providerType = "openai".toList then
    match env cfg.apiKeyEnv with
    | some key => registry.register (openAi cfg key)
    | none => registry
  else if cfg.providerType = "anthropic".toList then
    match env cfg.apiKeyEnv with
    | some key => registry.register (anthropic cfg key)
    | none => registry
  else registry

def fromConfigs (env : Str → Option Str) (openAi anthropic : ProviderConfig → Str → Provider σ)
    (configs : List ProviderConfig) : ProviderRegistry σ :=
  configs.foldl (registerConfig env openAi anthropic) new

variable {registry : ProviderRegistry σ} {provider : Provider σ}

theorem mem_supporting {model : Str} :
    provider ∈ registry.supporting model ↔
      provider ∈ registry.providers ∧ provider.Supports model := by
  simp [supporting]

theorem supports_of_getProvider {model : Str} (h : registry.getProvider model = some provider) :
    provider.Supports model := by
  simpa using List.find?_some h

theorem getProvider_eq_none_iff {model : Str} :
    registry.getProvider model = none ↔ registry.supporting model = [] := by
  simp [getProvider, supporting]

theorem name_of_getByName {name : Str} (h : registry.getByName name = some provider) :
    provider.name = name := by
  simpa using List.find?_some h

theorem exists_getByName (h : provider ∈ registry.providers) :
    ∃ found, registry.getByName provider.name = some found := by
  apply Option.isSome_iff_exists.mp
  rw [getByName, List.find?_isSome]
  exact ⟨provider, h, by simp⟩

end ProviderRegistry

end NeuRust
