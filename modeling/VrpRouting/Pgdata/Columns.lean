import Mathlib.Tactic.Linarith
import Mathlib.Tactic.NormNum
import VrpRouting.Common.Types

/-! # The columns of the inner queries

`Tuple` is a row of an inner query and `Info` a column that a fetcher expects of it.
`fetchColumnInfo` checks the types of the columns; `getValue`, `getAnynumerical` and `getArray` read
a value. An absent optional column gives the default of the fetcher, which no check sees
(except that of `getInterval`).

The conversion `get_timestamp_without_timezone` calls PostgreSQL and the C library; it is the
argument `toUtc`. Arrays have one dimension. -/

namespace VrpRouting

/-! ### Integer types -/

/-- The integer types of the fields. -/
structure IntType where
  bits : ℕ
  signed : Bool
deriving DecidableEq, Repr

namespace IntType

def int64 : IntType := ⟨64, true⟩

def uint32 : IntType := ⟨32, false⟩

/-- `static_cast` to the type: the value modulo `2 ^ bits`. -/
def cast (T : IntType) (n : ℤ) : ℤ := if T.signed then n.bmod (2 ^ T.bits) else n % 2 ^ T.bits

theorem cast_int64 {n : ℤ} (h1 : -2 ^ 63 ≤ n) (h2 : n < 2 ^ 63) : int64.cast n = n := by
  unfold cast int64
  rw [if_pos rfl]
  exact Int.bmod_eq_of_le (by simpa using h1) (by simpa using h2)

theorem cast_uint32_nonneg (n : ℤ) : 0 ≤ uint32.cast n := by
  unfold cast uint32
  rw [if_neg Bool.false_ne_true]
  exact Int.emod_nonneg _ (by decide)

end IntType

/-! ### Values -/

/-- The types of columns that the fetchers know. -/
inductive SqlType
  | int2 | int4 | int8 | float4 | float8 | numeric | text | bpchar | jsonb | timestamp | interval
  | int2Array | int4Array | int8Array | other
deriving DecidableEq, Repr

/-- `Interval` of PostgreSQL. -/
structure Interval where
  month : Int32
  day : Int32
  /-- In microseconds. -/
  time : Int64
deriving DecidableEq

/-- A value with the type of its column; `none` is NULL. -/
inductive Datum
  | int2 (value : Option Int16)
  | int4 (value : Option Int32)
  | int8 (value : Option Int64)
  | float4 (value : Option ℚ)
  | float8 (value : Option ℚ)
  | numeric (value : Option ℚ)
  | timestamp (value : Option Int64)
  | interval (value : Option Interval)
  | int2Array (value : Option (List (Option Int16)))
  | int4Array (value : Option (List (Option Int32)))
  | int8Array (value : Option (List (Option Int64)))
  /-- Values of the other types, which no fetcher of this development reads. -/
  | text | bpchar | jsonb | other
deriving DecidableEq

def Datum.type : Datum → SqlType
  | int2 _ => .int2
  | int4 _ => .int4
  | int8 _ => .int8
  | float4 _ => .float4
  | float8 _ => .float8
  | numeric _ => .numeric
  | timestamp _ => .timestamp
  | interval _ => .interval
  | int2Array _ => .int2Array
  | int4Array _ => .int4Array
  | int8Array _ => .int8Array
  | text => .text
  | bpchar => .bpchar
  | jsonb => .jsonb
  | other => .other

/-- The columns of a row, by name. -/
abbrev Tuple := List (String × Datum)

/-- `expectType`; the aliases of the enumeration are the definitions below. -/
inductive ExpectType
  | integer | anyInteger | anyNumerical | text | jsonb | char1 | integerArray | anyIntegerArray
  | timestamp | interval | positiveInteger | anyPositiveInteger | anyUint | anyPositiveArray
  | uintArray | anyUintArray
deriving DecidableEq, Repr, Inhabited

namespace ExpectType

abbrev amount : ExpectType := anyInteger
abbrev id : ExpectType := anyInteger
abbrev ttimestamp : ExpectType := anyInteger
abbrev coordinate : ExpectType := anyNumerical
abbrev speed : ExpectType := anyNumerical
abbrev multiplier : ExpectType := anyNumerical
abbrev tinterval : ExpectType := anyPositiveInteger
abbrev matrixIndex : ExpectType := anyPositiveInteger
abbrev pamount : ExpectType := anyUint

/-- The types that the `check_*_type` function of the kind accepts, with the name of them in its
message. -/
def accepts : ExpectType → Option (List SqlType × String)
  | anyInteger | anyPositiveInteger | anyUint => some ([.int2, .int4, .int8], "ANY-INTEGER")
  | anyNumerical =>
    some ([.int2, .int4, .int8, .float4, .float8, .numeric], "ANY-NUMERICAL")
  | text => some ([.text], "TEXT")
  | char1 => some ([.bpchar], "TEXT")
  | anyIntegerArray | anyPositiveArray =>
    some ([.int2Array, .int4Array, .int8Array], "ANY-INTEGER-ARRAY")
  | positiveInteger | integer => some ([.int2, .int4], "SMALLINT or INTEGER")
  | jsonb => some ([.jsonb], "JSONB")
  | integerArray | anyUintArray => some ([.int2Array, .int4Array], "INTEGER-ARRAY")
  | timestamp => some ([.timestamp], "TIMESTAMP")
  | interval => some ([.interval], "INTERVAL")
  | uintArray => none

end ExpectType

/-- An expected column; a strict one has to be there. -/
structure Info where
  strict : Bool
  name : String
  eType : ExpectType
deriving DecidableEq, Repr, Inhabited

/-- `throw` of a text. -/
def thrown {α : Type} (text : String) : Except Fault α := .error (.thrown text)

/-- A test that throws. -/
def throwIf (c : Prop) [Decidable c] (text : String) : Except Fault Unit :=
  if c then thrown text else .ok ()

theorem throwIf_eq_ok {c : Prop} [Decidable c] {text : String} {u : Unit}
    (h : throwIf c text = .ok u) : ¬ c := by
  intro hc
  rw [throwIf, if_pos hc] at h
  cases h

namespace Tuple

variable (tuple : Tuple) (info : Info)

/-- The value of the expected column, `none` when it was not found. -/
def column : Option Datum := tuple.lookup info.name

/-- `column_found`. -/
def columnFound : Bool := (tuple.column info).isSome

/-- The body of the loop of `fetch_column_info`. -/
def checkColumn : Except Fault Unit :=
  match tuple.column info with
  | none => if info.strict then thrown ("Column '" ++ info.name ++ "' not Found") else .ok ()
  | some d =>
    match info.eType.accepts with
    | some (types, expected) =>
      if d.type ∈ types then .ok ()
      else thrown ("Unexpected type in column '" ++ info.name ++ "'. Expected " ++ expected)
    | none =>
      thrown ("Case not found in column '" ++ info.name ++ "' Please inform the developers")

def fetchColumnInfo (info : List Info) : Except Fault Unit := info.forM tuple.checkColumn

/-! ### Reading a value -/

/-- The value of a column that may not be NULL. -/
def notNull {α : Type} (info : Info) : Option α → Except Fault α
  | some value => .ok value
  | none => thrown ("Unexpected Null value in column " ++ info.name)

def getBigInt (d : Datum) : Except Fault ℤ :=
  match d with
  | .int2 value => Int16.toInt <$> notNull info value
  | .int4 value => Int32.toInt <$> notNull info value
  | .int8 value => Int64.toInt <$> notNull info value
  | _ => thrown ("Unexpected type in column type of " ++ info.name ++ ". Expected ANY-INTEGER")

def getFloat8 (d : Datum) : Except Fault ℚ :=
  match d with
  | .int2 value => (fun n => (n.toInt : ℚ)) <$> notNull info value
  | .int4 value => (fun n => (n.toInt : ℚ)) <$> notNull info value
  | .int8 value => (fun n => (n.toInt : ℚ)) <$> notNull info value
  | .float4 value | .float8 value | .numeric value => notNull info value
  | _ => thrown ("Unexpected type in column type of " ++ info.name ++ ". Expected ANY-NUMERICAL")

/-- The seconds of an interval: a year has 365.25 days and 12 months. The product of the days is an
`int`. -/
def intervalSeconds (i : Interval) : ℤ :=
  i.time.toInt.tdiv 1000000 + (i.day * 86400).toInt +
    toInterval (i.month.toInt * (365.25 / 12 * 86400))

/-- `getInterval`, which `detail::get_interval` calls. -/
def readInterval (d : Datum) : Except Fault ℤ :=
  match d with
  | .interval value => intervalSeconds <$> notNull info value
  | _ => thrown ("Unexpected type value in column '" ++ info.name ++ "'. Expected INTERVALOID")

/-- `getTimeStamp`, which `detail::get_timestamp` calls. -/
def readTimestamp (toUtc : ℤ → ℤ) (d : Datum) : Except Fault ℤ :=
  match d with
  | .timestamp value => (fun t => toUtc t.toInt) <$> notNull info value
  | _ => thrown ("Unexpected type value in column '" ++ info.name ++ "'. Expected 1114")

def getAnyinteger (optValue : ℤ) : Except Fault ℤ :=
  match tuple.column info with
  | some d => getBigInt info d
  | none => .ok optValue

def getIntegral (T : IntType) (optValue : ℤ) : Except Fault ℤ :=
  T.cast <$> tuple.getAnyinteger info (IntType.int64.cast optValue)

def getPositive (T : IntType) (optValue : ℤ) : Except Fault ℤ :=
  if !tuple.columnFound info then .ok optValue
  else do
    let value ← tuple.getAnyinteger info 0
    throwIf (value < 0) ("Unexpected negative value in column '" ++ info.name ++ "'")
    return T.cast value

def getInterval (optValue : ℤ) : Except Fault ℤ := do
  let value ← (tuple.column info).elim (.ok optValue) (readInterval info)
  throwIf (value < 0) ("Unexpected negative value in column '" ++ info.name ++ "'")
  return value

def getTimestamp (toUtc : ℤ → ℤ) (optValue : ℤ) : Except Fault ℤ :=
  match tuple.column info with
  | some d => readTimestamp info toUtc d
  | none => .ok optValue

/-- `get_value` with the destination type `T`. -/
def getValue (toUtc : ℤ → ℤ) (T : IntType) (optValue : ℤ) : Except Fault ℤ :=
  match info.eType with
  | .anyInteger => T.cast <$> tuple.getIntegral info .int64 (IntType.int64.cast optValue)
  | .integer => T.cast <$> tuple.getIntegral info T optValue
  | .anyUint | .anyPositiveInteger | .positiveInteger =>
    T.cast <$> tuple.getPositive info T optValue
  | .timestamp => T.cast <$> tuple.getTimestamp info toUtc (IntType.int64.cast optValue)
  | .interval => T.cast <$> tuple.getInterval info (IntType.int64.cast optValue)
  | _ => thrown ("Missing case value " ++ info.name)

def getAnynumerical (optValue : ℚ) : Except Fault ℚ :=
  match tuple.column info with
  | some d => getFloat8 info d
  | none => .ok optValue

/-! ### Reading an array -/

/-- An element of an array. -/
def arrayElement : Option ℤ → Except Fault ℤ
  | some data => .ok data
  | none => thrown "NULL value found in Array!"

/-- `get_BigIntArr_wEmpty`: a NULL array is empty. -/
def getBigIntArrWEmpty (d : Datum) : Except Fault (List ℤ) :=
  match d with
  | .int2Array value => ((value.getD []).map (Option.map Int16.toInt)).mapM arrayElement
  | .int4Array value => ((value.getD []).map (Option.map Int32.toInt)).mapM arrayElement
  | .int8Array value => ((value.getD []).map (Option.map Int64.toInt)).mapM arrayElement
  | _ => thrown "Expected array of ANY-INTEGER"

def getAnyPositiveArray : Except Fault (List ℤ) :=
  match tuple.column info with
  | none => .ok []
  | some d => do
    let data ← getBigIntArrWEmpty d
    throwIf (∃ e ∈ data, e < 0) ("Unexpected negative value in array '" ++ info.name ++ "'")
    return data

/-- `get_array`. -/
def getArray : Except Fault (List ℤ) :=
  match info.eType with
  | .anyPositiveArray => tuple.getAnyPositiveArray info
  | _ => thrown ("Missing case value on array " ++ info.name)

/-! ### Values that are not negative -/

section Bounds
variable {tuple : Tuple} {info : Info} {toUtc : ℤ → ℤ} {n : ℤ}

theorem exists_of_notNull {α : Type} {f : α → ℤ} {value : Option α}
    (h : f <$> notNull info value = .ok n) : ∃ a, f a = n := by
  cases value with
  | none => cases h
  | some a => exact ⟨a, Except.ok.inj h⟩

/-- An integer column holds a 64-bit value. -/
theorem getBigInt_bounds {d : Datum} (h : getBigInt info d = .ok n) : -2 ^ 63 ≤ n ∧ n < 2 ^ 63 := by
  cases d with
  | int2 value =>
    obtain ⟨a, rfl⟩ := exists_of_notNull h
    have h1 := a.le_toInt
    have h2 := a.toInt_lt
    omega
  | int4 value =>
    obtain ⟨a, rfl⟩ := exists_of_notNull h
    have h1 := a.le_toInt
    have h2 := a.toInt_lt
    omega
  | int8 value =>
    obtain ⟨a, rfl⟩ := exists_of_notNull h
    exact ⟨a.le_toInt, a.toInt_lt⟩
  | _ => cases h

theorem getAnyinteger_bounds (h : tuple.getAnyinteger info 0 = .ok n) :
    -2 ^ 63 ≤ n ∧ n < 2 ^ 63 := by
  unfold getAnyinteger at h
  split at h
  · exact getBigInt_bounds h
  · obtain rfl := Except.ok.inj h
    decide

/-- The seconds of an interval fit in 64 bits. -/
theorem intervalSeconds_bounds (i : Interval) :
    -2 ^ 63 ≤ intervalSeconds i ∧ intervalSeconds i < 2 ^ 63 := by
  have hmonth : toInterval (i.month.toInt * (365.25 / 12 * 86400)) = i.month.toInt * 2629800 := by
    rw [show (i.month.toInt * (365.25 / 12 * 86400) : ℚ) = ((i.month.toInt * 2629800 : ℤ) : ℚ) by
      push_cast
      norm_num]
    exact toInterval_intCast _
  have htime : -2 ^ 62 ≤ i.time.toInt.tdiv 1000000 ∧ i.time.toInt.tdiv 1000000 < 2 ^ 62 := by
    have h1 := i.time.le_toInt
    have h2 := i.time.toInt_lt
    rw [Int.tdiv_eq_ediv, show Int.sign 1000000 = 1 from rfl]
    split_ifs <;> omega
  have h3 := (i.day * 86400).le_toInt
  have h4 := (i.day * 86400).toInt_lt
  have h5 := i.month.le_toInt
  have h6 := i.month.toInt_lt
  unfold intervalSeconds
  omega

theorem readInterval_bounds {d : Datum} (h : readInterval info d = .ok n) :
    -2 ^ 63 ≤ n ∧ n < 2 ^ 63 := by
  cases d with
  | interval value =>
    obtain ⟨i, rfl⟩ := exists_of_notNull h
    exact intervalSeconds_bounds i
  | _ => cases h

theorem getPositive_nonneg (h : tuple.getPositive info .int64 0 = .ok n) :
    0 ≤ n ∧ n < 2 ^ 63 := by
  unfold getPositive at h
  split_ifs at h
  · obtain rfl := Except.ok.inj h
    decide
  · obtain ⟨value, hv, h⟩ := bind_eq_ok h
    obtain ⟨u, hu, h⟩ := bind_eq_ok h
    have hneg := throwIf_eq_ok hu
    obtain ⟨h1, h2⟩ := getAnyinteger_bounds hv
    obtain rfl := Except.ok.inj h
    rw [IntType.cast_int64 h1 h2]
    omega

theorem getInterval_nonneg (h : tuple.getInterval info 0 = .ok n) : 0 ≤ n ∧ n < 2 ^ 63 := by
  unfold getInterval at h
  obtain ⟨value, hv, h⟩ := bind_eq_ok h
  obtain ⟨u, hu, h⟩ := bind_eq_ok h
  have hneg := throwIf_eq_ok hu
  obtain rfl := Except.ok.inj h
  have hb : -2 ^ 63 ≤ value ∧ value < 2 ^ 63 := by
    cases hc : tuple.column info with
    | none =>
      rw [hc] at hv
      obtain rfl := Except.ok.inj hv
      decide
    | some d =>
      rw [hc] at hv
      exact readInterval_bounds hv
  omega

theorem getValue_uint32_nonneg {optValue : ℤ} (hk : info.eType = .pamount)
    (h : tuple.getValue info toUtc .uint32 optValue = .ok n) : 0 ≤ n := by
  unfold getValue at h
  rw [hk] at h
  obtain ⟨m, -, rfl⟩ := map_eq_ok h
  exact IntType.cast_uint32_nonneg m

/-- **A column of intervals**, with either of its types, has no negative value. -/
theorem getValue_interval_nonneg (hk : info.eType = .tinterval ∨ info.eType = .interval)
    (h : tuple.getValue info toUtc .int64 0 = .ok n) : 0 ≤ n := by
  unfold getValue at h
  rcases hk with hk | hk <;> rw [hk] at h
  · obtain ⟨m, hm, rfl⟩ := map_eq_ok h
    obtain ⟨h1, h2⟩ := getPositive_nonneg hm
    rwa [IntType.cast_int64 (by omega) h2]
  · obtain ⟨m, hm, rfl⟩ := map_eq_ok h
    obtain ⟨h1, h2⟩ := getInterval_nonneg hm
    rwa [IntType.cast_int64 (by omega) h2]

end Bounds

end Tuple

end VrpRouting
