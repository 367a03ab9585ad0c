import Mathlib.Data.List.Basic

/-!
# From a gRPC status to an SDK error

`mapPsErrorStatusToGocbError` turns the status of a failed gRPC request into a
`GenericError`: the SDK error a caller tests with `errors.Is`, and a context that names
the server's message, the number of details and, when the first detail is a
`ResourceInfo`, the resource. Only the first detail is read, and of a
`PreconditionFailure` only its first violation; when that decides nothing, the status
code does. A `DeadlineExceeded` status is an `UnambiguousTimeout` for a read and an
`AmbiguousTimeout` for a write.
-/

namespace PsError

/-- The status codes of gRPC (`codes.Code`). -/
inductive Code
  | ok | canceled | unknown | invalidArgument | deadlineExceeded | notFound | alreadyExists
  | permissionDenied | resourceExhausted | failedPrecondition | aborted | outOfRange
  | unimplemented | internal | unavailable | dataLoss | unauthenticated
  deriving DecidableEq, Repr

/-- A detail of a status, with what the mapping reads of it: the types of a
`PreconditionFailure`'s violations, the type and name of a `ResourceInfo`. -/
inductive Detail
  | preconditionFailure (violations : List String)
  | resourceInfo (resourceType resourceName : String)
  | other
  deriving DecidableEq, Repr

/-- A gRPC status (`*status.Status`). -/
structure Status where
  code : Code
  message : String
  details : List Detail
  deriving DecidableEq, Repr

/-- The SDK's sentinel errors the mapping reports (`ErrCasMismatch`, ...). -/
inductive SdkError
  | casMismatch | documentLocked | pathMismatch | documentNotJSON | valueTooDeep
  | valueInvalid | documentNotFound | indexNotFound | bucketNotFound | scopeNotFound
  | collectionNotFound | pathNotFound | documentExists | indexExists | bucketExists
  | scopeExists | collectionExists | pathExists | requestCanceled | internalServerFailure
  | invalidArgument | unambiguousTimeout | ambiguousTimeout | authenticationFailure
  | featureNotAvailable | serviceNotAvailable
  deriving DecidableEq, Repr

/-- The error a `GenericError` wraps: a sentinel, a sentinel wrapped with a message by
`wrapError`, the status's own error (`st.Err()`), or an error that is no status. -/
inductive GoError
  | sentinel (e : SdkError)
  | wrapped (e : SdkError) (message : String)
  | status (st : Status)
  | plain (message : String)
  deriving DecidableEq, Repr

/-- The sentinel `errors.Is` finds in an error, if any. -/
def GoError.sentinel? : GoError → Option SdkError
  | .sentinel e | .wrapped e _ => some e
  | .status _ | .plain _ => none

inductive ContextValue
  | text (s : String)
  | count (n : ℕ)
  deriving DecidableEq, Repr

/-- What `makeGenericError` is given: the error (none for nil) and the context map. -/
structure GenericError where
  inner : Option GoError
  context : Option (List (String × ContextValue))
  deriving DecidableEq, Repr

def GenericError.sentinel? (g : GenericError) : Option SdkError :=
  g.inner.bind GoError.sentinel?

def preconditionCAS : String := "CAS"
def preconditionLocked : String := "LOCKED"
def preconditionPathMismatch : String := "PATH_MISMATCH"
def preconditionDocNotJSON : String := "DOC_NOT_JSON"
def preconditionDodcTooDeep : String := "DOC_TOO_DEEP"
def preconditionWouldInvalidateJSON : String := "WOULD_INVALIDATE_JSON"

def resourceTypeDocument : String := "document"
def resourceTypeIndex : String := "index"
def resourceTypeBucket : String := "bucket"
def resourceTypeScope : String := "scope"
def resourceTypeCollection : String := "collection"
def resourceTypePath : String := "path"
def resourceTypeSearchIndex : String := "searchindex"

/-- The switch on a violation's type; `PATH_VALUE_OUT_OF_RANGE` is not among its cases. -/
def preconditionErrors : List (String × SdkError) :=
  [(preconditionCAS, .casMismatch), (preconditionLocked, .documentLocked),
    (preconditionPathMismatch, .pathMismatch), (preconditionDocNotJSON, .documentNotJSON),
    (preconditionDodcTooDeep, .valueTooDeep), (preconditionWouldInvalidateJSON, .valueInvalid)]

/-- The switch on a resource's type for a `NotFound` status. -/
def resourceNotFoundErrors : List (String × SdkError) :=
  [(resourceTypeDocument, .documentNotFound), (resourceTypeIndex, .indexNotFound),
    (resourceTypeSearchIndex, .indexNotFound), (resourceTypeBucket, .bucketNotFound),
    (resourceTypeScope, .scopeNotFound), (resourceTypeCollection, .collectionNotFound),
    (resourceTypePath, .pathNotFound)]

/-- The switch on a resource's type for an `AlreadyExists` status. -/
def resourceExistsErrors : List (String × SdkError) :=
  [(resourceTypeDocument, .documentExists), (resourceTypeIndex, .indexExists),
    (resourceTypeSearchIndex, .indexExists), (resourceTypeBucket, .bucketExists),
    (resourceTypeScope, .scopeExists), (resourceTypeCollection, .collectionExists),
    (resourceTypePath, .pathExists)]

/-- The error the first detail decides, if it decides one. -/
def detailError? (code : Code) : Detail → Option SdkError
  | .preconditionFailure [] => none
  | .preconditionFailure (violation :: _) => preconditionErrors.lookup violation
  | .resourceInfo resourceType _ =>
    if code = .notFound then resourceNotFoundErrors.lookup resourceType
    else if code = .alreadyExists then resourceExistsErrors.lookup resourceType
    else none
  | .other => none

/-- `st.Err()`: the status as an error, nil for `OK`. -/
def Status.err (st : Status) : Option GoError :=
  if st.code = .ok then none else some (.status st)

/-- The switch on the status code, taken when the first detail decides nothing. -/
def codeError (st : Status) (readOnly : Bool) : Option GoError :=
  match st.code with
  | .canceled => some (.sentinel .requestCanceled)
  | .aborted | .unknown | .internal => some (.sentinel .internalServerFailure)
  | .outOfRange | .invalidArgument => some (.sentinel .invalidArgument)
  | .deadlineExceeded =>
    some (.sentinel (if readOnly then .unambiguousTimeout else .ambiguousTimeout))
  | .notFound => some (.sentinel .documentNotFound)
  | .alreadyExists => some (.sentinel .documentExists)
  | .unauthenticated | .permissionDenied =>
    some (.wrapped .authenticationFailure
      "server reported that permission to the resource was denied")
  | .unimplemented => some (.wrapped .featureNotAvailable st.message)
  | .unavailable => some (.sentinel .serviceNotAvailable)
  | _ => st.err

/-- The context: the server's message, the number of details, and the resource a first
`ResourceInfo` names, whatever the code. -/
def Status.context (st : Status) : List (String × ContextValue) :=
  [("server", .text st.message), ("details", .count st.details.length)] ++
    match st.details with
    | .resourceInfo resourceType resourceName :: _ =>
      [("resource_name", .text resourceName), ("resource_type", .text resourceType)]
    | _ => []

def mapPsErrorStatusToGocbError (st : Status) (readOnly : Bool) : GenericError :=
  match st.details.head?.bind (detailError? st.code) with
  | some e => ⟨some (.sentinel e), some st.context⟩
  | none => ⟨codeError st readOnly, some st.context⟩

/-- An error from a gRPC call: a status, or an error `status.FromError` does not read as
one. -/
inductive RequestError
  | status (st : Status)
  | other (message : String)
  deriving DecidableEq, Repr

def mapPsErrorToGocbError (err : RequestError) (readOnly : Bool) : GenericError :=
  match err with
  | .status st => mapPsErrorStatusToGocbError st readOnly
  | .other message => ⟨some (.plain message), none⟩

end PsError
