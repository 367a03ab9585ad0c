import Mathlib.Data.List.Basic

/-!
# The statements of the analytics index manager

Each `AnalyticsIndexManager` method checks its arguments, formats a statement with
`fmt.Sprintf` and sends it through `doAnalyticsQuery`. Dataset names, the dataverse of
`CreateDataverse`, the index of `CreateIndex` and the bucket of `CreateDataset` are put
in backticks; the dataverse of `DropDataverse`, the index of `DropIndex` and link names are
not, and no name is escaped.

For names without a backtick the quoting is unambiguous: a `CreateDataset` statement
determines the dataverse, dataset and bucket, the `IF NOT EXISTS` flag and the `WHERE`
clause it was built from (`createDataset_statement_determines_request`). A name with a
backtick in it breaks this: two different requests then send one statement.
-/

namespace AnalyticsIndexManager

/-- `fmt.Sprintf("%s", name)` between backticks. -/
def quoted (name : String) : String := "`" ++ name ++ "`"

/-- The dataset as `CreateDataset`, `DropDataset`, `CreateIndex` and `DropIndex` name
it: qualified by its dataverse when the options give one. -/
def datasetPath (dataverseName datasetName : String) : String :=
  if dataverseName = "" then quoted datasetName
  else quoted dataverseName ++ "." ++ quoted datasetName

def ifNotExists (ignoreIfExists : Bool) : String := if ignoreIfExists then "IF NOT EXISTS" else ""

def ifExists (ignoreIfNotExists : Bool) : String := if ignoreIfNotExists then "IF EXISTS" else ""

/-- The `WHERE` clause of `CreateDataset`: a condition whose upper-cased text does not
already start with `WHERE` gets the keyword put before it. `strings.ToUpper` is read
character by character, as `Char.toUpper` (ASCII letters). -/
def whereClause (condition : String) : String :=
  if condition = "" then ""
  else (if "WHERE".data.isPrefixOf (condition.data.map Char.toUpper) then "" else "WHERE ") ++
    condition

/-- The options the statements read; a nil options pointer is the zero value. -/
structure CreateAnalyticsDataverseOptions where
  ignoreIfExists : Bool := false

structure DropAnalyticsDataverseOptions where
  ignoreIfNotExists : Bool := false

structure CreateAnalyticsDatasetOptions where
  ignoreIfExists : Bool := false
  condition : String := ""
  dataverseName : String := ""

structure DropAnalyticsDatasetOptions where
  ignoreIfNotExists : Bool := false
  dataverseName : String := ""

structure CreateAnalyticsIndexOptions where
  ignoreIfExists : Bool := false
  dataverseName : String := ""

structure DropAnalyticsIndexOptions where
  ignoreIfNotExists : Bool := false
  dataverseName : String := ""

structure ConnectAnalyticsLinkOptions where
  linkName : String := ""

structure DisconnectAnalyticsLinkOptions where
  linkName : String := ""

/-- The statement `CreateDataverse` sends, or the message of the `invalidArgumentsError`
it returns first. -/
def createDataverse (dataverseName : String) (opts : Option CreateAnalyticsDataverseOptions) :
    Except String String :=
  if dataverseName = "" then .error "dataset name cannot be empty"
  else .ok ("CREATE DATAVERSE " ++ quoted dataverseName ++ " " ++
    ifNotExists (opts.getD {}).ignoreIfExists)

def dropDataverse (dataverseName : String) (opts : Option DropAnalyticsDataverseOptions) :
    String :=
  "DROP DATAVERSE " ++ dataverseName ++ " " ++ ifExists (opts.getD {}).ignoreIfNotExists

def createDataset (datasetName bucketName : String)
    (opts : Option CreateAnalyticsDatasetOptions) : Except String String :=
  let opts := opts.getD {}
  if datasetName = "" then .error "dataset name cannot be empty"
  else .ok ("CREATE DATASET " ++ ifNotExists opts.ignoreIfExists ++ " " ++
    datasetPath opts.dataverseName datasetName ++ " ON " ++ quoted bucketName ++ " " ++
    whereClause opts.condition)

def dropDataset (datasetName : String) (opts : Option DropAnalyticsDatasetOptions) : String :=
  let opts := opts.getD {}
  "DROP DATASET " ++ datasetPath opts.dataverseName datasetName ++ " " ++
    ifExists opts.ignoreIfNotExists

/-- `fields` in the iteration order of the Go map, each rendered `name:type`. -/
def createIndex (datasetName indexName : String) (fields : List (String × String))
    (opts : Option CreateAnalyticsIndexOptions) : Except String String :=
  let opts := opts.getD {}
  if indexName = "" then .error "index name cannot be empty"
  else if fields = [] then .error "you must specify at least one field to index"
  else .ok ("CREATE INDEX " ++ quoted indexName ++ " " ++ ifNotExists opts.ignoreIfExists ++
    " ON " ++ datasetPath opts.dataverseName datasetName ++ " (" ++
    ",".intercalate (fields.map fun f => f.1 ++ ":" ++ f.2) ++ ")")

def dropIndex (datasetName indexName : String) (opts : Option DropAnalyticsIndexOptions) :
    String :=
  let opts := opts.getD {}
  "DROP INDEX " ++ datasetPath opts.dataverseName datasetName ++ "." ++ indexName ++ " " ++
    ifExists opts.ignoreIfNotExists

/-- `ConnectLink` and `DisconnectLink`: the link defaults to `Local`. -/
def linkStatement (verb linkName : String) : String :=
  verb ++ " LINK " ++ (if linkName = "" then "Local" else linkName)

def connectLink (opts : Option ConnectAnalyticsLinkOptions) : String :=
  linkStatement "CONNECT" (opts.getD {}).linkName

def disconnectLink (opts : Option DisconnectAnalyticsLinkOptions) : String :=
  linkStatement "DISCONNECT" (opts.getD {}).linkName

/-- What the provider's `AnalyticsQuery` gave back: an error, or the rows (each one the
error `result.Row` gave for it, or the row) and `result.Err()`. -/
inductive AnalyticsResult
  | failed (err : String)
  | rows (rows : List (Except String String)) (err : Option String)

/-- `doAnalyticsQuery`: the statement goes out with the request's timeout, or the
manager's when that is zero; rows that cannot be read are skipped. -/
def doAnalyticsQuery (globalTimeout : ℕ) (query : String → ℕ → AnalyticsResult)
    (q : String) (timeout : ℕ) : Except String (List String) :=
  match query q (if timeout = 0 then globalTimeout else timeout) with
  | .failed err => .error err
  | .rows _ (some err) => .error err
  | .rows rows none => .ok (rows.filterMap Except.toOption)

/-! ### Reading a statement back -/

/-- A name a statement can quote without ambiguity. -/
def Unquoted (name : String) : Prop := '`' ∉ name.data

instance (name : String) : Decidable (Unquoted name) :=
  inferInstanceAs (Decidable (_ ∉ _))

theorem append_tick_inj {a a' r r' : List Char} (ha : '`' ∉ a) (ha' : '`' ∉ a')
    (h : a ++ '`' :: r = a' ++ '`' :: r') : a = a' ∧ r = r' := by
  induction a generalizing a' with
  | nil =>
    cases a' with
    | nil => simpa using h
    | cons c a' =>
      obtain ⟨rfl, -⟩ := List.cons_eq_cons.mp h
      exact absurd (List.mem_cons_self _ _) ha'
  | cons c a ih =>
    cases a' with
    | nil =>
      obtain ⟨rfl, -⟩ := List.cons_eq_cons.mp h
      exact absurd (List.mem_cons_self _ _) ha
    | cons c' a' =>
      simp only [List.cons_append, List.cons.injEq] at h
      obtain ⟨rfl, h⟩ := h
      obtain ⟨rfl, rfl⟩ := ih (List.not_mem_of_not_mem_cons ha)
        (List.not_mem_of_not_mem_cons ha') h
      exact ⟨rfl, rfl⟩

theorem append_left_cancel {p s t : String} (h : p ++ s = p ++ t) : s = t :=
  String.ext (List.append_cancel_left (congrArg String.data h))

/-- A quoted name followed by anything is read back: the name and what follows. -/
theorem quoted_append_inj {a a' r r' : String} (ha : Unquoted a) (ha' : Unquoted a')
    (h : quoted a ++ r = quoted a' ++ r') : a = a' ∧ r = r' := by
  have hd := congrArg String.data h
  simp only [quoted, String.data_append, List.append_assoc] at hd
  obtain ⟨hn, hr⟩ := append_tick_inj ha ha' (List.append_cancel_left hd)
  exact ⟨String.ext hn, String.ext hr⟩

theorem datasetPath_append_inj {dv ds dv' ds' r r' : String} (hdv : Unquoted dv)
    (hds : Unquoted ds) (hdv' : Unquoted dv') (hds' : Unquoted ds')
    (h : datasetPath dv ds ++ (" " ++ r) = datasetPath dv' ds' ++ (" " ++ r')) :
    dv = dv' ∧ ds = ds' ∧ r = r' := by
  unfold datasetPath at h
  split_ifs at h with he he' <;> try simp only [String.append_assoc] at h
  · obtain ⟨rfl, hr⟩ := quoted_append_inj hds hds' h
    exact ⟨he.trans he'.symm, rfl, append_left_cancel hr⟩
  · obtain ⟨-, hr⟩ := quoted_append_inj hds hdv' h
    simp [String.ext_iff] at hr
  · obtain ⟨-, hr⟩ := quoted_append_inj hdv hds' h
    simp [String.ext_iff] at hr
  · obtain ⟨rfl, hr⟩ := quoted_append_inj hdv hdv' h
    have hrest : quoted ds ++ (" " ++ r) = quoted ds' ++ (" " ++ r') := append_left_cancel hr
    obtain ⟨rfl, hspace⟩ := quoted_append_inj hds hds' hrest
    exact ⟨rfl, rfl, append_left_cancel hspace⟩

theorem ifNotExists_append_inj {b b' : Bool} {r r' : String}
    (h : ifNotExists b ++ (" " ++ r) = ifNotExists b' ++ (" " ++ r')) : b = b' ∧ r = r' := by
  cases b <;> cases b' <;> simp [ifNotExists, String.ext_iff] at h ⊢ <;> exact h

theorem createDataset_eq_ok {ds b q : String} {o : CreateAnalyticsDatasetOptions} :
    createDataset ds b (some o) = .ok q ↔
      ds ≠ "" ∧ q = "CREATE DATASET " ++ ifNotExists o.ignoreIfExists ++ " " ++
        datasetPath o.dataverseName ds ++ " ON " ++ quoted b ++ " " ++ whereClause o.condition := by
  unfold createDataset
  split_ifs with h <;> simp [h, eq_comm]

/-- For names without backticks, two `CreateDataset` requests that send the same
statement agree on the dataset, the bucket, the dataverse, the `IF NOT EXISTS` flag and the
`WHERE` clause. -/
theorem createDataset_statement_determines_request {ds ds' b b' q : String}
    {o o' : CreateAnalyticsDatasetOptions}
    (hnames : Unquoted ds ∧ Unquoted ds' ∧ Unquoted b ∧ Unquoted b' ∧
      Unquoted o.dataverseName ∧ Unquoted o'.dataverseName)
    (h : createDataset ds b (some o) = .ok q)
    (h' : createDataset ds' b' (some o') = .ok q) :
    ds = ds' ∧ b = b' ∧ o.dataverseName = o'.dataverseName ∧
      o.ignoreIfExists = o'.ignoreIfExists ∧ whereClause o.condition = whereClause o'.condition := by
  obtain ⟨hds, hds', hb, hb', hdv, hdv'⟩ := hnames
  have hq := (createDataset_eq_ok.mp h).2.symm.trans (createDataset_eq_ok.mp h').2
  simp only [String.append_assoc, show " ON " = " " ++ "ON " from rfl] at hq
  obtain ⟨hign, hpath⟩ := ifNotExists_append_inj (append_left_cancel hq)
  obtain ⟨hdv, rfl, hon⟩ := datasetPath_append_inj hdv hds hdv' hds' hpath
  obtain ⟨rfl, hwhere⟩ := quoted_append_inj hb hb' (append_left_cancel hon)
  exact ⟨rfl, rfl, hdv, hign, append_left_cancel hwhere⟩

theorem createDataset_condition_with_or_without_where :
    (Unquoted "orders" ∧ Unquoted "orders" ∧ Unquoted "travel" ∧ Unquoted "travel" ∧
      Unquoted "sales" ∧ Unquoted "sales") ∧
    createDataset "orders" "travel"
      (some { dataverseName := "sales", condition := "x = 1" }) =
        .ok "CREATE DATASET  `sales`.`orders` ON `travel` WHERE x = 1" ∧
    createDataset "orders" "travel"
      (some { dataverseName := "sales", condition := "WHERE x = 1" }) =
        .ok "CREATE DATASET  `sales`.`orders` ON `travel` WHERE x = 1" ∧
    whereClause "x = 1" = whereClause "WHERE x = 1" :=
  have hn : Unquoted "orders" ∧ Unquoted "orders" ∧ Unquoted "travel" ∧ Unquoted "travel" ∧
      Unquoted "sales" ∧ Unquoted "sales" := by decide
  have h : createDataset "orders" "travel"
      (some { dataverseName := "sales", condition := "x = 1" }) =
        .ok "CREATE DATASET  `sales`.`orders` ON `travel` WHERE x = 1" := rfl
  have h' : createDataset "orders" "travel"
      (some { dataverseName := "sales", condition := "WHERE x = 1" }) =
        .ok "CREATE DATASET  `sales`.`orders` ON `travel` WHERE x = 1" := rfl
  ⟨hn, h, h', (createDataset_statement_determines_request hn h h').2.2.2.2⟩

/-- The hypothesis is needed: a backtick in the dataverse or the dataset name lets two
requests send one statement. -/
example : createDataset "c" "travel" (some { dataverseName := "a`.`b" }) =
    createDataset "b`.`c" "travel" (some { dataverseName := "a" }) := rfl

end AnalyticsIndexManager
