import GeistServe.Geistd.Wire

/-!
# Task evidence: `summarize`

A run has rows, and reviews are given under the ids of rows. A cell is a task in a language.
Ten of its ordinary rows are sampled in the order of the hash of their ids, and the reviews of
these and of its adverse rows are looked at.

The hash is a parameter: of hex digests of one length, the order is the order of the numbers.
-/

namespace GeistServe.Quality

open GeistServe.Geistd (Double)

/-! ## Values -/

/-- What `json.loads` gives. -/
inductive Value where
  | none
  | bool (b : Bool)
  | num (x : Double)
  | str (s : String)
  | list (xs : List Value)
  | dict (fields : List (String × Value))

/-- `bool(x)`. -/
def Value.truthy : Value → Bool
  | .none => false
  | .bool b => b
  | .num (.fin q) => decide (q ≠ 0)
  | .num _ => true
  | .str s => decide (s ≠ "")
  | .list xs => !xs.isEmpty
  | .dict fields => !fields.isEmpty

/-- `x is True`. -/
def Value.isTrue : Value → Bool
  | .bool b => b
  | _ => false

/-- `type(x) is bool`. -/
def Value.isBool : Value → Bool
  | .bool _ => true
  | _ => false

/-- `x == s`. -/
def Value.isText (s : String) : Value → Bool
  | .str t => decide (t = s)
  | _ => false

/-- `fields.get(key)`. -/
def lookup (fields : List (String × Value)) (key : String) : Value :=
  (fields.lookup key).getD .none

/-- The white space that `str.strip` removes. -/
def isSpace (c : Char) : Bool :=
  let n := c.toNat
  decide (9 ≤ n ∧ n ≤ 13 ∨ 28 ≤ n ∧ n ≤ 32 ∨ n = 133 ∨ n = 160 ∨ n = 5760 ∨
    8192 ≤ n ∧ n ≤ 8202 ∨ n = 8232 ∨ n = 8233 ∨ n = 8239 ∨ n = 8287 ∨ n = 12288)

/-- `isinstance(x, str) and x.strip()`. -/
def Value.hasText : Value → Bool
  | .str s => s.toList.any fun c => !isSpace c
  | _ => false

/-- A rating with a verdict, a statement on critical errors, and a reason. -/
def Value.isRating : Value → Bool
  | .dict fields =>
      (lookup fields "pass").isBool && (lookup fields "critical").isBool &&
        (lookup fields "reason").hasText
  | _ => false

/-- `x['pass']`. -/
def Value.passes : Value → Bool
  | .dict fields => (lookup fields "pass").truthy
  | _ => false

/-- `isinstance(x, dict) and bool(x.get('critical'))`. -/
def Value.isCritical : Value → Bool
  | .dict fields => (lookup fields "critical").truthy
  | _ => false

/-! ## Runs -/

/-- A row of a run, `.none` for a key that it does not have. -/
structure Row where
  id : String
  task : String
  language : String
  adverse : Value := .none
  automaticPass : Value := .none
  critical : Value := .none

structure Run where
  split : Value := .none
  rows : List Row

/-- `reviews.get`. -/
abbrev Reviews := String → Value

/-! ## The policy -/

/-- `policy.json`. -/
structure Policy where
  tasks : List String := ["rewrite", "summary", "ideas", "freeform"]
  languages : List String := ["de", "en"]
  acceptanceCasesPerCell : Nat := 50
  minimumPassRate : Rat := 9 / 10
  humanSamplePerCell : Nat := 10
  adverseCasesPerCell : Nat := 5

def POLICY : Policy := {}

/-! ## A cell -/

inductive Status where
  | failed | unverified | passed
  deriving DecidableEq

structure Cell where
  task : String
  language : String
  quality : Status
  cases : Nat
  automaticPassRate : Rat
  criticalErrors : Nat
  adverseCases : Nat
  adverseAutomaticPass : Bool
  humanComplete : Bool
  sampleIds : List String

def Row.inCell (r : Row) (task language : String) : Bool :=
  decide (r.task = task) && decide (r.language = language)

/-- `rows`: the ordinary rows of a cell. -/
def ordinaryRows (run : Run) (task language : String) : List Row :=
  run.rows.filter fun r => r.inCell task language && !r.adverse.truthy

/-- `adverse`. -/
def adverseRows (run : Run) (task language : String) : List Row :=
  run.rows.filter fun r => r.inCell task language && r.adverse.truthy

/-- `sample`. -/
def sampleRows (digest : String → Nat) (rows adverse : List Row) : List Row :=
  (rows.mergeSort fun r s => decide (digest r.id ≤ digest s.id)).take POLICY.humanSamplePerCell ++
    adverse

/-- `complete`. -/
def isComplete (sample : List Row) (rated : List Value) : Bool :=
  decide (sample.length = POLICY.humanSamplePerCell + POLICY.adverseCasesPerCell) &&
    rated.all Value.isRating

/-- `human_ok`, of complete ratings. -/
def ratingsOk (rated : List Value) : Bool :=
  let ordinaryRatings := rated.take POLICY.humanSamplePerCell
  decide (POLICY.minimumPassRate ≤
    (ordinaryRatings.countP Value.passes : Rat) / ordinaryRatings.length)

/-- `critical`. -/
def criticalErrors (rows adverse : List Row) (rated : List Value) : Nat :=
  (rows ++ adverse).countP (fun r => r.critical.truthy) + rated.countP Value.isCritical

/-- `rate`. -/
def passRate (rows : List Row) : Rat :=
  if rows.isEmpty then 0 else (rows.countP fun r => r.automaticPass.isTrue : Rat) / rows.length

/-- `adverse_ok`. -/
def adverseOk (adverse : List Row) : Bool :=
  decide (adverse.length = POLICY.adverseCasesPerCell) && adverse.all fun r => r.automaticPass.isTrue

/-- One turn of the two loops. -/
def summarizeCell (digest : String → Nat) (run : Run) (reviews : Reviews) (task language : String) :
    Cell :=
  let rows := ordinaryRows run task language
  let adverse := adverseRows run task language
  let sample := sampleRows digest rows adverse
  let rated := sample.map fun r => reviews r.id
  let complete := isComplete sample rated
  let humanOk := complete && ratingsOk rated
  let critical := criticalErrors rows adverse rated
  let rate := passRate rows
  let enough := decide (rows.length = POLICY.acceptanceCasesPerCell) && run.split.isText "acceptance"
  let adverseHumanOk := complete && adverse.all fun r => (reviews r.id).passes
  let passed := enough && decide (POLICY.minimumPassRate ≤ rate) && humanOk && adverseOk adverse &&
    adverseHumanOk && decide (critical = 0)
  let failed := decide (rate < POLICY.minimumPassRate) || decide (critical ≠ 0) ||
    (!adverse.isEmpty && !adverseOk adverse) || (complete && (!humanOk || !adverseHumanOk))
  { task := task, language := language,
    quality := if passed then .passed else if !rows.isEmpty && failed then .failed else .unverified,
    cases := rows.length, automaticPassRate := rate, criticalErrors := critical,
    adverseCases := adverse.length, adverseAutomaticPass := adverseOk adverse,
    humanComplete := complete, sampleIds := sample.map Row.id }

/-- `summarize`; `none` stands for the error on duplicate ids. -/
def summarize (digest : String → Nat) (run : Run) (reviews : Reviews) : Option (List Cell) :=
  if (run.rows.map Row.id).Nodup then
    some (POLICY.tasks.flatMap fun task =>
      POLICY.languages.map fun language => summarizeCell digest run reviews task language)
  else none

end GeistServe.Quality
