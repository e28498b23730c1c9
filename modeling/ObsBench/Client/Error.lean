import ObsBench.Sdk

/-!
# Exceptions of the client

Every operation reports a failed request by throwing `HuaweiCloudObs::Error`, whose
constructor formats the error details the SDK delivered. Formatting goes through `fmt`,
which throws when it is handed a NULL `const char *`, so building the error can itself
raise something else.
-/

namespace ObsBench

/-- `HuaweiCloudObs::Error`: the caller's message, the status, the details and their text. -/
structure Error where
  msg : Bytes
  status : ObsStatus
  error : ObsErrorDetails
  detailsText : Bytes

inductive Exception where
  | error (e : Error)
  | formatError
  | stoull (e : StoullError)
  | lengthError

/-- How a call can fail to return: an exception, a failed assertion, or behaviour the
language does not define. -/
inductive Failure where
  | exception (e : Exception)
  | abort
  | undefinedBehaviour

/-- A computation that returns has gone through its first part. -/
theorem exists_of_bind_eq_ok {ε α β : Type} {x : Except ε α} {f : α → Except ε β} {r : β}
    (h : (x >>= f) = .ok r) : ∃ a, x = .ok a ∧ f a = .ok r := by
  cases x with
  | error e => exact absurd h (by nofun)
  | ok a => exact ⟨a, rfl, h⟩

/-- `fmt`'s `{}` for a `const char *`. -/
def formatCString : Option CString → Except Exception Bytes
  | some s => .ok s.bytes
  | none => .error .formatError

/-- The loop over the extra details, from index `i` on. -/
def formatExtraDetails : ℕ → List ObsNameValue → Except Exception Bytes
  | _, [] => .ok []
  | i, d :: rest => do
    let name ← formatCString d.name
    let value ← formatCString d.value
    let tail ← formatExtraDetails (i + 1) rest
    return text "Error Extra Detail(" ++ (decimal i).bytes ++ text "):\n   " ++ name ++ text ":" ++
      value ++ text "\n" ++ tail

/-- The loop over the error headers, from index `i` on. -/
def formatErrorHeaders : ℕ → List (Option CString) → Bytes
  | _, [] => []
  | i, header :: rest =>
    text "Error Headers(" ++ (decimal i).bytes ++ text "):\n    " ++
      (match header with
        | none => text "NULL Header"
        | some s => s.bytes) ++ text "\n" ++ formatErrorHeaders (i + 1) rest

/-- `fmt::formatter<obs_error_details>::format`. -/
def formatErrorDetails (error : ObsErrorDetails) : Except Exception Bytes := do
  let message := match error.message with
    | some s => text "Error Message: \n   " ++ s.bytes ++ text "\n"
    | none => []
  let resource := match error.resource with
    | some s => text "Error Resource: \n  " ++ s.bytes ++ text "\n"
    | none => []
  let furtherDetails := match error.furtherDetails with
    | some s => text "Error further_details: \n   " ++ s.bytes ++ text "\n"
    | none => []
  let extraDetails ← formatExtraDetails 0 error.extraDetails
  return message ++ resource ++ furtherDetails ++ extraDetails ++
    formatErrorHeaders 0 error.errorHeaders

/-- `throw Error(msg, status, error)`: what is thrown. -/
def thrownError (msg : Bytes) (status : ObsStatus) (error : ObsErrorDetails) : Exception :=
  match formatErrorDetails error with
  | .ok detailsText => .error { msg, status, error, detailsText }
  | .error e => e

/-- `Error::what()`. The name of a status comes from the SDK. -/
def Error.what (obsGetStatusName : ObsStatus → CString) (e : Error) : Bytes :=
  text "Error: " ++ e.msg ++ text ", status: " ++ (obsGetStatusName e.status).bytes ++
    text " details: " ++ e.detailsText

end ObsBench
