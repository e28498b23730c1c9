import ObsBench.Sdk

/-!
# What the client expects of uploads

The service is outside the repository, so results about its effects assume how a call is
served. A single upload either reaches the service or not, and its response either comes
back or not; the predicates below say what each combination does to the bucket.
-/

namespace ObsBench

/-- The bytes under a key, an absent object being empty. -/
def Bucket.content (B : Bucket) (key : CString) : Bytes := (B.lookup key).getD []

/-- What becomes of one request for an upload: lost before the service applied it, applied
while the client gets an error status, or applied and reported. -/
inductive Fate where
  | lost
  | appliedButError
  | applied
deriving DecidableEq, Repr

/-- A put replaces the object. -/
def PutCall.Meets (call : PutCall) (fate : Fate) : Prop :=
  ∀ B key body,
    (call.serve B key body).1 = (if fate = .lost then B else B.insert key body) ∧
    ((call.serve B key body).2.status = .OK ↔ fate = .applied)

/-- The service reads the position and takes an append only at the current length. -/
def Bucket.Accepts (B : Bucket) (key position : CString) : Prop :=
  readDecimal position = some (B.content key).length

/-- A reply that names the position for the next append. -/
def Reply.ReportsPosition (reply : Reply) (position : ℕ) : Prop :=
  ∃ p, reply.properties = some p ∧ p.obsNextAppendPosition = some (decimal position)

/-- An append at the current length extends the object and, when the client hears of it, names
the new length; at any other position it fails without effect. -/
def AppendCall.Meets (call : AppendCall) (fate : Fate) : Prop :=
  ∀ B key position body,
    (B.Accepts key position →
      (call.serve B key position body).1 =
        (if fate = .lost then B else B.insert key (B.content key ++ body)) ∧
      ((call.serve B key position body).2.status = .OK ↔ fate = .applied) ∧
      (fate = .applied → (call.serve B key position body).2.ReportsPosition
        ((B.content key).length + body.length))) ∧
    (¬ B.Accepts key position →
      (call.serve B key position body).1 = B ∧ (call.serve B key position body).2.status ≠ .OK)

instance (B : Bucket) (key position : CString) : Decidable (B.Accepts key position) :=
  inferInstanceAs (Decidable (_ = _))

/-! ## A service for every fate -/

def bufferSize64K : BufferSize := ⟨65536, by decide⟩

def Reply.ofOutcome (properties : ObsResponseProperties) (ok : Bool) : Reply where
  properties := some properties
  status := if ok then .OK else .other 1
  errorDetails := none

def PutCall.ofFate (fate : Fate) : PutCall where
  sizes _ := bufferSize64K
  serve B key body :=
    (if fate = .lost then B else B.insert key body, .ofOutcome {} (fate = .applied))

def AppendCall.ofFate (fate : Fate) : AppendCall where
  sizes _ := bufferSize64K
  serve B key position body :=
    if B.Accepts key position then
      (if fate = .lost then B else B.insert key (B.content key ++ body),
        .ofOutcome ⟨some (decimal ((B.content key).length + body.length))⟩ (fate = .applied))
    else (B, .ofOutcome {} false)

theorem PutCall.ofFate_meets (fate : Fate) : (PutCall.ofFate fate).Meets fate := by
  intro B key body
  cases fate <;> simp [ofFate, Reply.ofOutcome]

theorem AppendCall.ofFate_meets (fate : Fate) : (AppendCall.ofFate fate).Meets fate := by
  intro B key position body
  constructor
  · intro haccepts
    cases fate <;> simp [ofFate, Reply.ofOutcome, Reply.ReportsPosition, haccepts]
  · intro hrefused
    simp [ofFate, Reply.ofOutcome, hrefused]

/-! ## The content of a key -/

@[simp] theorem Bucket.content_insert (B : Bucket) (key : CString) (body : Bytes) :
    Bucket.content (B.insert key body) key = body := by
  simp [Bucket.content]

theorem Bucket.content_of_lookup {B : Bucket} {key : CString} {body : Bytes}
    (h : B.lookup key = some body) : B.content key = body := by
  simp [Bucket.content, h]

theorem Bucket.content_of_absent {B : Bucket} {key : CString} (h : B.lookup key = none) :
    B.content key = [] := by
  simp [Bucket.content, h]

/-- The content of an object depends on its key alone. -/
theorem Bucket.content_congr {B B' : Bucket} {key : CString} (h : B'.lookup key = B.lookup key) :
    B'.content key = B.content key := by
  unfold Bucket.content
  rw [h]

/-- A position written in decimal is accepted exactly when it is the length of the object. -/
@[simp] theorem Bucket.accepts_decimal (B : Bucket) (key : CString) (n : ℕ) :
    B.Accepts key (decimal n) ↔ n = (B.content key).length := by
  simp [Bucket.Accepts]

end ObsBench
