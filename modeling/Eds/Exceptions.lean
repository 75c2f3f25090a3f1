import Eds.Effects.Prog

/-!
# The exceptions the code tells apart

One constructor for each class that some `except` clause, `isinstance` test or
caller distinguishes.  The texts are carried where the code reads them back with
`str(e)`.
-/

namespace Eds

open Effects Effects.Prog

/-- The first two are the consumer's own stop signals.  `expired` says that the signed
URLs of a download are gone.  `connectionError` and `timeoutError` are the builtin
classes with their subclasses, `requestsTransport` the two of `requests.exceptions`,
`exception` any other subclass of `Exception`, and `base` what is outside it
(`CancelledError`, `KeyboardInterrupt`, `SystemExit`). -/
inductive Exn where
  | consumerStopped
  | consumerFatal (msg : String)
  | driverStopped
  | schemaValidation (msg : String)
  | usage (msg : String) (exitCode : Int)
  | recoveryCancelled
  | downloadStage (msg : String) (expired : Bool)
  | apiStatus (msg : String) (statusCode : Int)
  | valueError (msg : String)
  | permissionError (msg : String)
  | connectionError (msg : String)
  | timeoutError (msg : String)
  | requestsTransport (msg : String)
  | osError (errno : Option Int) (msg : String)
  | exception (msg : String)
  | base (msg : String)
  deriving DecidableEq, Repr

namespace Exn

/-- Whether `except Exception` catches it. -/
def isException : Exn → Bool
  | base _ => false
  | _ => true

def str : Exn → String
  | consumerStopped | recoveryCancelled => ""
  | driverStopped => "driver stopped"
  | consumerFatal m | schemaValidation m | valueError m | permissionError m
  | connectionError m | timeoutError m | requestsTransport m | exception m | base m => m
  | usage m _ | downloadStage m _ | apiStatus m _ | osError _ m => m

def isConsumerStop : Exn → Bool
  | consumerStopped | consumerFatal _ => true
  | _ => false

theorem not_consumerStop {e : Exn} (h : e.isException = false) : e.isConsumerStop = false := by
  cases e with
  | base _ => rfl
  | _ => cases h

end Exn

/-- `try: p` with a single clause `except Exception as e: h e`. -/
def tryExcept {σ α : Type} (p : Prog Exn σ α) (h : Exn → Prog Exn σ α) : Prog Exn σ α :=
  handle p fun e => if e.isException then h e else raise e

theorem wp_tryExcept {σ α : Type} {p : Prog Exn σ α} {h : Exn → Prog Exn σ α}
    {Q : α → σ → Prop} {X : Exn → σ → Prop} {s : σ}
    (hp : wp p Q (fun e t => (e.isException = true → wp (h e) Q X t) ∧
      (e.isException = false → X e t)) s) : wp (tryExcept p h) Q X s := by
  rw [tryExcept, wp_handle]
  refine wp_mono hp (fun _ _ hQ => hQ) (fun e t he => ?_)
  cases hx : e.isException
  · simp only [Bool.false_eq_true, if_false, wp_raise]
    exact he.2 hx
  · simp only [if_true]
    exact he.1 hx

theorem within_tryExcept {σ α : Type} {R : σ → σ → Prop} {p : Prog Exn σ α}
    {h : Exn → Prog Exn σ α} (hp : Within R p) (hh : ∀ e, Within R (h e))
    (hrefl : ∀ s, R s s) (htrans : ∀ {s t u}, R s t → R t u → R s u) :
    Within R (tryExcept p h) := by
  refine hp.handle (fun e => ?_) htrans
  by_cases he : e.isException = true
  · rw [if_pos he]
    exact hh e
  · rw [if_neg he]
    exact within_raise hrefl e

end Eds
