import NeuRust.Contracts

/-!
What providers report of the tokens that they use, written down beside their state as they are
called.
-/

namespace NeuRust

variable {τ : Type*}

structure Report where
  model : Str
  usage : TokenUsage
  deriving DecidableEq

def responseReport (response : UnifiedResponse) : Report := ⟨response.model, response.usage⟩

/-- The usage of a stream that comes to its end: it is cumulative, so that the last one counts. -/
def streamUsage (chunks : List (Except Error StreamChunk)) : Option TokenUsage :=
  if chunks.all Except.isOk then
    (chunks.filterMap fun item => item.toOption.bind StreamChunk.usage).getLast?
  else none

def streamReport (model : Str) (chunks : List (Except Error StreamChunk)) : List Report :=
  (streamUsage chunks).toList.map (Report.mk model)

/-- The provider, with everything that it reports written down beside its state. -/
def reporting (provider : Provider τ) : Provider (τ × List Report) where
  name := provider.name
  supportedModels := provider.supportedModels
  complete request s :=
    match provider.complete request s.1 with
    | (.ok response, t) => (.ok response, (t, s.2 ++ [responseReport response]))
    | (.error e, t) => (.error e, (t, s.2))
  completeStream request s :=
    match provider.completeStream request s.1 with
    | (.ok chunks, t) => (.ok chunks, (t, s.2 ++ streamReport request.model.modelName chunks))
    | (.error e, t) => (.error e, (t, s.2))

end NeuRust
