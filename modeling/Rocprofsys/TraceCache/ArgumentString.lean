import Rocprofsys.Base.Decimal
import Rocprofsys.Base.Delimited
import Rocprofsys.TraceCache.Cacheable

namespace Rocprofsys
namespace TraceCache

open Base

/-! ## Function arguments as one string -/

structure ArgumentInfo where
  argNumber : UInt32
  argType : Bytes
  argName : Bytes
  argValue : Bytes

abbrev FunctionArgs := List ArgumentInfo

/-- `";;"`. -/
def argDelimiter : Bytes := [59, 59]

theorem argDelimiter_ne_nil : argDelimiter ≠ [] := List.cons_ne_nil _ _

def getArgsString (args : FunctionArgs) : Bytes :=
  args.flatMap fun arg =>
    decimal arg.argNumber.toNat ++ argDelimiter ++ arg.argType ++ argDelimiter ++
      arg.argName ++ argDelimiter ++ arg.argValue ++ argDelimiter

/-- The exceptions of `process_arguments_string`, with their texts. -/
inductive ArgumentError where
  | invalidArgument (what : String)
  | outOfRange (what : String)
  deriving DecidableEq, Repr

/-- `isspace` in the C locale. -/
def isSpace (b : UInt8) : Bool := b == 32 || decide (9 ≤ b.toNat ∧ b.toNat ≤ 13)

/-- `std::stoi`: white space, a sign and decimal digits, up to the first other byte. -/
def stoi (str : Bytes) : Except ArgumentError Int :=
  let signed := takeSign (str.dropWhile isSpace)
  let digits := signed.2.takeWhile isDigit
  let value : Int := if signed.1 then -digitsValue digits else digitsValue digits
  if digits = [] then .error (.invalidArgument "stoi")
  else if -2 ^ 31 ≤ value ∧ value < 2 ^ 31 then .ok value
  else .error (.outOfRange "stoi")

/-- The loop over the tokens, four at a time. -/
def argumentsOfTokens : List Bytes → Except ArgumentError FunctionArgs
  | number :: argType :: argName :: argValue :: tokens => do
    let argNumber ← stoi number
    let args ← argumentsOfTokens tokens
    return ⟨UInt32.ofInt argNumber, argType, argName, argValue⟩ :: args
  | _ => return []

def processArgumentsString (argStr : Bytes) : Except ArgumentError FunctionArgs :=
  let tokens := splitFields argDelimiter argDelimiter_ne_nil argStr
  if tokens.length % 4 ≠ 0 then .error (.invalidArgument "Malformed argument string.")
  else argumentsOfTokens tokens

/-! ## Numbers -/

theorem isSpace_of_isDigit {b : UInt8} (h : isDigit b = true) : isSpace b = false := by
  have hdigit := isDigit_toNat h
  have hne : b ≠ 32 := by
    intro heq
    subst heq
    exact absurd hdigit.1 (by decide)
  simp only [isSpace, Bool.or_eq_false_iff, beq_eq_false_iff_ne, decide_eq_false_iff_not]
  exact ⟨hne, by omega⟩

theorem stoi_decimal (n : Nat) :
    stoi (decimal n) = if n < 2 ^ 31 then .ok (n : Int) else .error (.outOfRange "stoi") := by
  obtain ⟨b, rest, hcons⟩ := List.exists_cons_of_ne_nil (decimal_ne_nil n)
  have hb : isDigit b = true := isDigit_of_mem_decimal (hcons ▸ List.mem_cons_self)
  have hdrop : (decimal n).dropWhile isSpace = decimal n := by
    rw [hcons, List.dropWhile_cons_of_neg]
    rw [isSpace_of_isDigit hb]
    decide
  have hsign : takeSign (decimal n) = (false, decimal n) := by
    rw [hcons]
    exact takeSign_of_isDigit hb rest
  have htake : (decimal n).takeWhile isDigit = decimal n := by
    rw [List.takeWhile_eq_self_iff]
    exact fun b hb => isDigit_of_mem_decimal hb
  simp only [stoi, hdrop, hsign, htake, digitsValue_decimal, decimal_ne_nil, if_false,
    Bool.false_eq_true]
  by_cases hn : n < 2 ^ 31
  · rw [if_pos hn, if_pos (by omega)]
  · rw [if_neg hn, if_neg (by omega)]

theorem clean_decimal (n : Nat) : Clean argDelimiter (decimal n) := by
  rw [argDelimiter, clean_pair_iff]
  have hmem : (59 : UInt8) ∉ decimal n := by
    intro h
    exact absurd (isDigit_toNat (isDigit_of_mem_decimal h)).2 (by decide)
  constructor
  · intro h
    exact hmem (h.subset List.mem_cons_self)
  · intro h
    exact hmem (List.mem_of_getLast? h)

/-! ## Round trip -/

/-- The field neither holds the delimiter nor ends with half of it. -/
def Separated (field : Bytes) : Prop := ¬argDelimiter <:+: field ∧ field.getLast? ≠ some 59

theorem clean_iff_separated {field : Bytes} : Clean argDelimiter field ↔ Separated field :=
  clean_pair_iff

/-- The argument's number is an `int`, and its strings keep clear of the delimiter. -/
structure ArgumentInfo.Separable (arg : ArgumentInfo) : Prop where
  number : arg.argNumber.toNat < 2 ^ 31
  type : Separated arg.argType
  name : Separated arg.argName
  value : Separated arg.argValue

/-- The tokens of a string. -/
def tokensOf (argStr : Bytes) : List Bytes := splitFields argDelimiter argDelimiter_ne_nil argStr

theorem tokensOf_append {field : Bytes} (h : Separated field) (rest : Bytes) :
    tokensOf (field ++ (argDelimiter ++ rest)) = field :: tokensOf rest := by
  rw [← List.append_assoc]
  exact splitFields_clean argDelimiter_ne_nil (clean_iff_separated.mpr h) rest

/-- The first token is the field only if the field keeps clear of the delimiter. -/
theorem separated_of_tokensOf {field rest : Bytes} {others : List Bytes}
    (h : tokensOf (field ++ (argDelimiter ++ rest)) = field :: others) : Separated field := by
  by_contra hfield
  obtain ⟨short, others', hne, hshort⟩ := splitFields_of_not_clean argDelimiter_ne_nil
    (fun hclean => hfield (clean_iff_separated.mp hclean)) rest
  rw [tokensOf, ← List.append_assoc, hshort] at h
  exact hne (List.cons.inj h).1

theorem getArgsString_cons (arg : ArgumentInfo) (args : FunctionArgs) :
    getArgsString (arg :: args) = decimal arg.argNumber.toNat ++ (argDelimiter ++
      (arg.argType ++ (argDelimiter ++ (arg.argName ++ (argDelimiter ++
        (arg.argValue ++ (argDelimiter ++ getArgsString args))))))) := by
  simp only [getArgsString, List.flatMap_cons, List.append_assoc]

theorem tokensOf_getArgsString {args : FunctionArgs} (h : ∀ arg ∈ args, arg.Separable) :
    tokensOf (getArgsString args) = args.flatMap fun arg =>
      [decimal arg.argNumber.toNat, arg.argType, arg.argName, arg.argValue] := by
  induction args with
  | nil => exact splitFields_nil argDelimiter_ne_nil
  | cons arg args ih =>
    obtain ⟨-, htype, hname, hvalue⟩ := h arg List.mem_cons_self
    rw [getArgsString_cons, tokensOf_append (clean_iff_separated.mp (clean_decimal _)),
      tokensOf_append htype, tokensOf_append hname, tokensOf_append hvalue,
      ih fun arg' harg' => h arg' (List.mem_cons_of_mem arg harg'), List.flatMap_cons]
    rfl

theorem ofInt_toNat (n : UInt32) : UInt32.ofInt n.toNat = n := by
  have hmod : ((n.toNat : Int) % 2 ^ 32).toNat = n.toNat := by
    have hlt := n.toNat_lt
    omega
  rw [UInt32.ofInt, hmod, UInt32.ofNat_toNat]

theorem argumentsOfTokens_flatMap {args : FunctionArgs}
    (h : ∀ arg ∈ args, arg.argNumber.toNat < 2 ^ 31) :
    argumentsOfTokens (args.flatMap fun arg =>
      [decimal arg.argNumber.toNat, arg.argType, arg.argName, arg.argValue]) = .ok args := by
  induction args with
  | nil => rfl
  | cons arg args ih =>
    have hstoi : stoi (decimal arg.argNumber.toNat) = .ok (arg.argNumber.toNat : Int) := by
      rw [stoi_decimal, if_pos (h arg List.mem_cons_self)]
    have hrest := ih fun arg' harg' => h arg' (List.mem_cons_of_mem arg harg')
    rw [List.flatMap_cons]
    show (do
      let argNumber ← stoi (decimal arg.argNumber.toNat)
      let args ← argumentsOfTokens (args.flatMap fun arg : ArgumentInfo =>
        [decimal arg.argNumber.toNat, arg.argType, arg.argName, arg.argValue])
      return ArgumentInfo.mk (UInt32.ofInt argNumber) arg.argType arg.argName arg.argValue ::
        args) = .ok (arg :: args)
    rw [hstoi, hrest]
    show Except.ok (ArgumentInfo.mk (UInt32.ofInt arg.argNumber.toNat) _ _ _ :: args) = _
    rw [ofInt_toNat]

/-- What a successful loop has read. -/
theorem argumentsOfTokens_cons {tokens : List Bytes} {arg : ArgumentInfo} {args : FunctionArgs}
    (h : argumentsOfTokens tokens = .ok (arg :: args)) :
    ∃ number others argNumber,
      tokens = number :: arg.argType :: arg.argName :: arg.argValue :: others ∧
      stoi number = .ok argNumber ∧ argumentsOfTokens others = .ok args := by
  unfold argumentsOfTokens at h
  split at h
  · rename_i number argType argName argValue others
    cases hnumber : stoi number with
    | error e =>
      rw [hnumber] at h
      cases h
    | ok argNumber =>
      cases hothers : argumentsOfTokens others with
      | error e =>
        rw [hnumber, hothers] at h
        cases h
      | ok args' =>
        rw [hnumber, hothers] at h
        cases h
        exact ⟨number, others, argNumber, rfl, hnumber, hothers⟩
  · cases h

/-- A string that reads back gives the tokens it was written from. -/
theorem argumentsOfTokens_of_processArgumentsString {argStr : Bytes} {args : FunctionArgs}
    (h : processArgumentsString argStr = .ok args) :
    argumentsOfTokens (tokensOf argStr) = .ok args := by
  rw [processArgumentsString] at h
  split at h
  · cases h
  · exact h

/-- Reading back stops at the first argument that is not separable. -/
theorem separable_of_argumentsOfTokens {args : FunctionArgs}
    (h : argumentsOfTokens (tokensOf (getArgsString args)) = .ok args) :
    ∀ arg ∈ args, arg.Separable := by
  induction args with
  | nil =>
    intro arg harg
    cases harg
  | cons arg args ih =>
    obtain ⟨number, others, argNumber, htokens, hstoi, hothers⟩ := argumentsOfTokens_cons h
    -- the four fields are cut off one after another
    rw [getArgsString_cons, tokensOf_append (clean_iff_separated.mp (clean_decimal _)),
      List.cons.injEq] at htokens
    obtain ⟨rfl, htokens⟩ := htokens
    have htype := separated_of_tokensOf htokens
    rw [tokensOf_append htype, List.cons.injEq] at htokens
    have hname := separated_of_tokensOf htokens.2
    rw [tokensOf_append hname, List.cons.injEq] at htokens
    have hvalue := separated_of_tokensOf htokens.2.2
    rw [tokensOf_append hvalue, List.cons.injEq] at htokens
    have hnumber : arg.argNumber.toNat < 2 ^ 31 := by
      by_contra hlarge
      rw [stoi_decimal, if_neg hlarge] at hstoi
      cases hstoi
    intro arg' harg'
    rcases List.mem_cons.mp harg' with rfl | harg'
    · exact ⟨hnumber, htype, hname, hvalue⟩
    · refine ih ?_ arg' harg'
      rw [htokens.2.2.2]
      exact hothers

theorem separable_of_roundTrip {args : FunctionArgs}
    (h : processArgumentsString (getArgsString args) = .ok args) : ∀ arg ∈ args, arg.Separable :=
  separable_of_argumentsOfTokens (argumentsOfTokens_of_processArgumentsString h)

theorem length_flatMap_four (args : FunctionArgs) :
    (args.flatMap fun arg =>
      [decimal arg.argNumber.toNat, arg.argType, arg.argName, arg.argValue]).length =
      4 * args.length := by
  induction args with
  | nil => rfl
  | cons arg args ih =>
    rw [List.flatMap_cons, List.length_append, ih]
    show 4 + 4 * args.length = 4 * (args.length + 1)
    omega

/-- The arguments come back exactly when the fields can be told apart. -/
theorem processArgumentsString_getArgsString_iff (args : FunctionArgs) :
    processArgumentsString (getArgsString args) = .ok args ↔ ∀ arg ∈ args, arg.Separable := by
  constructor
  · exact separable_of_roundTrip
  · intro h
    have htokens : splitFields argDelimiter argDelimiter_ne_nil (getArgsString args) = _ :=
      tokensOf_getArgsString h
    have hfour : ¬4 * args.length % 4 ≠ 0 := by omega
    rw [processArgumentsString, htokens, length_flatMap_four, if_neg hfour]
    exact argumentsOfTokens_flatMap fun arg harg => (h arg harg).number

/-- An argument whose value is `a;;b`. -/
theorem not_roundTrip_delimiterInValue :
    ¬∀ args, processArgumentsString (getArgsString args) = .ok args := by
  intro h
  have hseparable := separable_of_roundTrip (h [⟨0, [105], [120], [97, 59, 59, 98]⟩]) _
    List.mem_cons_self
  exact hseparable.value.1 ⟨[97], [98], rfl⟩

end TraceCache
end Rocprofsys
