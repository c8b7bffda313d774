import NeuRust.Gateway.Inference
import NeuRust.Machine.FirstLeast

/-!
The two ways in which a provider is found for a model: the gateway's, which goes by the configured
priorities, and the registry's, which goes by the order of registration.
-/

namespace NeuRust.Gateway

variable {κ ε σ : Type*}

/-! ### The configured priority -/

/-- The priority of the configuration with an id, the last one without. -/
def configuredPriority (config : List ProviderConfig) (id : Str) : BitVec 32 :=
  ((config.find? fun p => p.id = id).bind ProviderConfig.priority).getD (.allOnes 32)

theorem lookup_priorities {config : List ProviderConfig} (h : (config.map ProviderConfig.id).Nodup)
    (map : Table Str (BitVec 32)) (id : Str) :
    (config.foldl (fun map p => map.insert p.id (p.priority.getD (.allOnes 32))) map).lookup id =
      ((config.find? fun p => p.id = id).map fun p => p.priority.getD (.allOnes 32)).or
        (map.lookup id) := by
  induction config generalizing map with
  | nil => rfl
  | cons p config ih =>
      rw [List.map_cons, List.nodup_cons] at h
      obtain ⟨hid, hrest⟩ := h
      rw [List.foldl_cons, ih hrest]
      by_cases hp : p.id = id
      · have hnone : (config.find? fun q => q.id = id) = none := by
          rw [List.find?_eq_none]
          intro q hq heq
          apply hid
          rw [hp, ← of_decide_eq_true heq]
          exact List.mem_map_of_mem hq
        rw [hnone, List.find?_cons_of_pos (by simpa using hp), hp, AList.lookup_insert]
        rfl
      · rw [List.find?_cons_of_neg (by simpa using hp), AList.lookup_insert_ne (Ne.symm hp)]

namespace AppState

/-- With distinct ids, the map holds the configured priorities. -/
theorem priority_eq {app : AppState κ ε σ} (h : (app.config.map ProviderConfig.id).Nodup)
    (provider : Provider σ) :
    app.priority provider = configuredPriority app.config provider.name := by
  rw [priority, priorityMap, lookup_priorities h, configuredPriority]
  cases app.config.find? fun p => p.id = provider.name with
  | none => rfl
  | some p => rfl

def registry (app : AppState κ ε σ) : ProviderRegistry σ := ⟨app.providers⟩

/-- The rank of a provider: the lower, the sooner it is chosen. -/
def rank (app : AppState κ ε σ) (provider : Provider σ) : ℕ :=
  (configuredPriority app.config provider.name).toNat

theorem findProvider_eq {app : AppState κ ε σ} (h : (app.config.map ProviderConfig.id).Nodup)
    (model : Str) : app.findProvider model =
      ((app.registry.supporting model).mergeSort fun p q =>
        decide (app.rank p ≤ app.rank q)).head? := by
  simp only [findProvider, priority_eq h]
  rfl

theorem findProvider_eq_none_iff {app : AppState κ ε σ} {model : Str} :
    app.findProvider model = none ↔ ∀ provider ∈ app.providers, ¬ provider.Supports model := by
  rw [findProvider, List.head?_eq_none_iff, ← List.length_eq_zero_iff, List.length_mergeSort,
    List.length_eq_zero_iff, List.filter_eq_nil_iff]
  simp only [decide_eq_true_eq]

/-- Both find the supporting provider of the lowest priority, the earliest among equals, or none
if there is none. -/
structure RoutesAlike (app : AppState κ ε σ) (model : Str) : Prop where
  same : app.findProvider model = app.registry.getProvider model
  chosen : ∀ provider, app.findProvider model = some provider →
    IsFirstLeast app.rank (app.registry.supporting model) provider
  none : app.findProvider model = none ↔ ∀ provider ∈ app.providers, ¬ provider.Supports model

theorem findProvider_isFirstLeast {app : AppState κ ε σ}
    (h : (app.config.map ProviderConfig.id).Nodup) {model : Str} {provider : Provider σ}
    (hfound : app.findProvider model = some provider) :
    IsFirstLeast app.rank (app.registry.supporting model) provider := by
  rw [findProvider_eq h] at hfound
  exact .of_head_mergeSort hfound

/-- No provider of the model has a lower priority than the one registered first. -/
def FirstRanksLeast (app : AppState κ ε σ) (model : Str) : Prop :=
  ∀ first, app.registry.getProvider model = some first →
    ∀ provider ∈ app.registry.supporting model, app.rank first ≤ app.rank provider

/-- The gateway and the registry route alike exactly when no provider of the model ranks below
the one registered first. -/
theorem routesAlike_iff (app : AppState κ ε σ) (h : (app.config.map ProviderConfig.id).Nodup)
    (model : Str) : app.RoutesAlike model ↔ app.FirstRanksLeast model := by
  constructor
  · intro halike first hfirst provider hprovider
    rw [← halike.same] at hfirst
    exact (halike.chosen first hfirst).le hprovider
  · intro hleast
    refine ⟨?_, fun provider => findProvider_isFirstLeast h, findProvider_eq_none_iff⟩
    have hget : app.registry.getProvider model = (app.registry.supporting model).head? :=
      List.head?_filter.symm
    cases hsupporting : app.registry.supporting model with
    | nil => rw [findProvider_eq h, hget, hsupporting, List.mergeSort_nil]
    | cons first rest =>
        rw [hsupporting, List.head?_cons] at hget
        have hsome : app.findProvider model ≠ none := by
          rw [findProvider_eq h, hsupporting, ne_eq, List.head?_eq_none_iff]
          intro hnil
          have hlength := congrArg List.length hnil
          rw [List.length_mergeSort] at hlength
          cases hlength
        obtain ⟨found, hfound⟩ := Option.ne_none_iff_exists'.mp hsome
        have hfirst := findProvider_isFirstLeast h hfound
        rw [hsupporting] at hfirst
        have hle := hleast first hget
        rw [hsupporting] at hle
        rw [hfound, hget, hfirst.eq_head hle]

end AppState

/-! ### Two providers of one model -/

def configured (id : Str) (priority : BitVec 32) : ProviderConfig where
  id := id
  providerType := "openai".toList
  apiKeyEnv := "KEY".toList
  baseUrl := none
  models := [['m']]
  priority := some priority
  maxConnections := none

def named (name : Str) : Provider Unit where
  name := name
  supportedModels := [['m']]
  complete := fun _ s => (.error (.msg []), s)
  completeStream := fun _ s => (.error (.msg []), s)

def twoProviders (first second : ProviderConfig) : AppState Unit Unit Unit where
  providers := [named first.id, named second.id]
  config := [first, second]
  hasher := fun _ => ()
  embedding := ⟨fun _ => none, fun _ _ => 0⟩

theorem routesAlike_iff_in_order :
    (twoProviders (configured ['a'] 1) (configured ['b'] 2)).RoutesAlike ['m'] ↔
      (twoProviders (configured ['a'] 1) (configured ['b'] 2)).FirstRanksLeast ['m'] :=
  AppState.routesAlike_iff (twoProviders (configured ['a'] 1) (configured ['b'] 2))
    (by decide +kernel) ['m']

/-- The registry takes the first provider, and the other one comes before it by priority. -/
theorem priority_ignored_by_registry :
    ¬ ∀ app : AppState Unit Unit Unit, (app.config.map ProviderConfig.id).Nodup →
      ∀ model, app.RoutesAlike model := by
  intro h
  have halike :=
    h (twoProviders (configured ['a'] 2) (configured ['b'] 1)) (by decide +kernel) ['m']
  have hfound : AppState.findProvider _ ['m'] = some (named ['a']) := halike.same.trans rfl
  have hsupports : named ['b'] ∈
      (twoProviders (configured ['a'] 2) (configured ['b'] 1)).registry.supporting ['m'] :=
    ProviderRegistry.mem_supporting.mpr
      ⟨List.mem_cons_of_mem _ List.mem_cons_self, List.mem_cons_self⟩
  have hleast := (halike.chosen (named ['a']) hfound).le hsupports
  revert hleast
  decide +kernel

end NeuRust.Gateway
