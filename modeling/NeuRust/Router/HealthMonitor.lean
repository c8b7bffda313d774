import NeuRust.Machine.Rounds
import NeuRust.Machine.Run
import NeuRust.Provider.Health
import NeuRust.Provider.Registry
import NeuRust.Router.LoadBalancer

/-!
The health monitor: a loop that checks the providers one after the other at every tick, and readers
that look at the statuses at any time between two checks.
-/

namespace NeuRust.Router

variable {σ : Type*}

/-- The statuses, and the providers that are still to be checked in the current round. -/
structure HealthMonitor (σ : Type*) where
  providers : ProviderRegistry σ
  statuses : Table Str ProviderHealth
  pending : List (Provider σ)

namespace HealthMonitor

def new (providers : ProviderRegistry σ) : HealthMonitor σ := ⟨providers, ∅, []⟩

def getStatus (monitor : HealthMonitor σ) (providerName : Str) : Option ProviderHealth :=
  monitor.statuses.lookup providerName

def allStatuses (monitor : HealthMonitor σ) : Table Str ProviderHealth := monitor.statuses

end HealthMonitor

inductive MonitorOp where
  | tick
  | check (providerName : Str) (health : ProviderHealth)
  | getStatus (providerName : Str) (answer : Option ProviderHealth)
  | allStatuses (answer : Table Str ProviderHealth)

inductive MonitorStep : HealthMonitor σ → MonitorOp → HealthMonitor σ → Prop
  | tick (monitor : HealthMonitor σ) (h : monitor.pending = []) :
      MonitorStep monitor .tick { monitor with pending := monitor.providers.providers }
  | check (monitor : HealthMonitor σ) (provider : Provider σ) (rest : List (Provider σ))
      (health : ProviderHealth) (h : monitor.pending = provider :: rest) :
      MonitorStep monitor (.check provider.name health)
        { monitor with
          statuses := monitor.statuses.insert provider.name health
          pending := rest }
  | getStatus (monitor : HealthMonitor σ) (providerName : Str) :
      MonitorStep monitor (.getStatus providerName (monitor.getStatus providerName)) monitor
  | allStatuses (monitor : HealthMonitor σ) :
      MonitorStep monitor (.allStatuses monitor.allStatuses) monitor

/-! ### What has been found -/

def MonitorOp.checked : MonitorOp → Option (Str × ProviderHealth)
  | .check providerName health => some (providerName, health)
  | _ => none

/-- The checks of a run with what they found, the latest first. -/
def checks (steps : List (Transition (HealthMonitor σ) MonitorOp)) : List (Str × ProviderHealth) :=
  steps.filterMap fun t => t.label.checked

def healthOf (checks : List (Str × ProviderHealth)) (name : Str) : Option ProviderHealth :=
  (checks.find? fun check => check.1 = name).map Prod.snd

theorem healthOf_cons (check : Str × ProviderHealth) (rest : List (Str × ProviderHealth))
    (name : Str) : healthOf (check :: rest) name =
      if check.1 = name then some check.2 else healthOf rest name := by
  rw [healthOf, healthOf, List.find?_cons]
  split_ifs with h
  · rw [decide_eq_true h]
    rfl
  · rw [decide_eq_false h]

/-- A name is found among the first entries if it is one of theirs. -/
theorem exists_healthOf_take {checks : List (Str × ProviderHealth)} {n : ℕ} {name : Str}
    (h : name ∈ (checks.take n).map Prod.fst) :
    ∃ health, healthOf checks name = some health ∧ (name, health) ∈ checks.take n := by
  obtain ⟨check, hcheck, hname⟩ := List.mem_map.mp h
  have hsome : ((checks.take n).find? fun check => check.1 = name).isSome = true :=
    List.find?_isSome.mpr ⟨check, hcheck, decide_eq_true hname⟩
  obtain ⟨found, hfound⟩ := Option.isSome_iff_exists.mp hsome
  have hmem := List.mem_of_find?_eq_some hfound
  obtain rfl : found.1 = name := by simpa using List.find?_some hfound
  refine ⟨found.2, ?_, hmem⟩
  rw [healthOf, ← List.take_append_drop n checks, List.find?_append, hfound]
  rfl

/-! ### Runs -/

/-- The statuses are what the latest checks found, and the checks go round the registry. -/
structure Monitors (registry : ProviderRegistry σ)
    (steps : List (Transition (HealthMonitor σ) MonitorOp)) (monitor : HealthMonitor σ) : Prop where
  providers : monitor.providers = registry
  statuses : ∀ name, monitor.statuses.lookup name = healthOf (checks steps) name
  rounds : InRounds (registry.providers.map Provider.name) (monitor.pending.map Provider.name)
    ((checks steps).map Prod.fst)

variable {registry : ProviderRegistry σ} {steps : List (Transition (HealthMonitor σ) MonitorOp)}
  {monitor monitor' : HealthMonitor σ} {op : MonitorOp}

theorem Monitors.new (registry : ProviderRegistry σ) :
    Monitors registry [] (HealthMonitor.new registry) where
  providers := rfl
  statuses := fun _ => rfl
  rounds := .start _

theorem Monitors.step (hs : Monitors registry steps monitor)
    (h : MonitorStep monitor op monitor') :
    Monitors registry (⟨monitor, op, monitor'⟩ :: steps) monitor' := by
  obtain ⟨hproviders, hstatuses, hrounds⟩ := hs
  cases h with
  | tick h =>
      refine ⟨hproviders, hstatuses, ?_⟩
      rw [h] at hrounds
      rw [hproviders]
      exact hrounds.begin
  | check provider rest health h =>
      refine ⟨hproviders, fun name => ?_, ?_⟩
      · change _ = healthOf ((provider.name, health) :: checks steps) name
        rw [healthOf_cons]
        split_ifs with hname
        · rw [← hname, AList.lookup_insert]
        · rw [AList.lookup_insert_ne (Ne.symm hname), hstatuses]
      · rw [h] at hrounds
        exact hrounds.visit
  | getStatus providerName => exact ⟨hproviders, hstatuses, hrounds⟩
  | allStatuses => exact ⟨hproviders, hstatuses, hrounds⟩

theorem Monitors.of_run (run : Run MonitorStep (HealthMonitor.new registry) steps monitor) :
    Monitors registry steps monitor := by
  apply run.invariant_of_history (I := Monitors registry)
  · exact .new registry
  · exact fun _ hs h => hs.step h

/-- In every run of checks and readers, a status that is read is what the latest check of a provider
of that name found; and once there have been as many checks as there are providers, it is there for
each of them, and no older than that many checks. -/
theorem status_is_latest_check (registry : ProviderRegistry σ)
    (run : Run MonitorStep (HealthMonitor.new registry) steps monitor) :
    ∀ t earlier, t :: earlier <:+ steps → ∀ name answer, t.label = .getStatus name answer →
      answer = healthOf (checks earlier) name ∧
        (registry.providers.length ≤ (checks earlier).length →
          (∃ provider ∈ registry.providers, provider.name = name) → ∃ health,
            answer = some health ∧
              (name, health) ∈ (checks earlier).take registry.providers.length) := by
  rintro ⟨pre, label, post⟩ earlier hsuffix name answer rfl
  obtain ⟨hbefore, hstep⟩ := run.before hsuffix
  have hs := Monitors.of_run hbefore
  have hread : MonitorStep pre (.getStatus name answer) post := hstep
  cases hread with
  | getStatus =>
      have hanswer : pre.getStatus name = healthOf (checks earlier) name := hs.statuses name
      refine ⟨hanswer, fun hlength hprovider => ?_⟩
      obtain ⟨provider, hmem, rfl⟩ := hprovider
      have hlatest := hs.rounds.mem_take (by rwa [List.length_map, List.length_map])
        (List.mem_map_of_mem hmem)
      rw [List.length_map, ← List.map_take] at hlatest
      obtain ⟨health, hhealth, hrecent⟩ := exists_healthOf_take hlatest
      exact ⟨health, hanswer.trans hhealth, hrecent⟩

def twoProviders : ProviderRegistry Unit :=
  ⟨[LoadBalancer.silent "openai".toList [], LoadBalancer.silent "anthropic".toList []]⟩

def reached : ProviderHealth := ⟨.healthy, 12, none⟩

def unreached : ProviderHealth := ⟨.down, 30, some "connection refused".toList⟩

theorem status_is_latest_check_unreached :
    ∃ steps monitor, Run MonitorStep (HealthMonitor.new twoProviders) steps monitor ∧
      monitor.getStatus "anthropic".toList = some unreached ∧
        ("anthropic".toList, unreached) ∈ (checks steps).take 2 := by
  have start : Run MonitorStep (HealthMonitor.new twoProviders) [] _ := .nil
  have round := start
    |>.snoc (.tick _ rfl)
    |>.snoc (.check _ (LoadBalancer.silent "openai".toList []) _ reached rfl)
    |>.snoc (.check _ (LoadBalancer.silent "anthropic".toList []) _ unreached rfl)
  have run := round.snoc (.getStatus _ "anthropic".toList)
  obtain ⟨-, hlatest⟩ := status_is_latest_check twoProviders run _ _ (List.suffix_refl _)
    "anthropic".toList _ rfl
  obtain ⟨health, hhealth, hrecent⟩ := hlatest (by decide)
    ⟨_, List.mem_cons_of_mem _ List.mem_cons_self, rfl⟩
  obtain rfl : unreached = health := Option.some.inj hhealth
  exact ⟨_, _, round, rfl, hrecent⟩

end NeuRust.Router
