import PocketLisp.Eval.Basic

/-!
# The rules of evaluation

What a form means, said by rules and without a limit. `Evaluates basis env e outcome calls` holds if
in the environment `env` the form `e` has this outcome, which is a value or a violation, and if
these calls of native functions are made on the way, in this order. `EvaluatesArguments` is the same
for a list of arguments, which comes to its values or to the message of an error value, and
`Applies` for a function and its values.

A form for which nothing can be derived goes on for ever.
-/

namespace PocketLisp

namespace Value

def isPair : Value → Bool
  | pair _ _ => true
  | _ => false

def isSymbol : Value → Bool
  | symbol _ => true
  | _ => false

def isError : Value → Bool
  | error _ => true
  | _ => false

end Value

/-- The heads that announce a special form. -/
def Basis.heads (basis : Basis) : List Value :=
  [basis.head .quote, basis.head .conditional, basis.head .lambda]

mutual

/-- In `env`, the form has the outcome, and makes the calls. -/
inductive Evaluates (basis : Basis) : Env → Value → Except Violation Value → List Call → Prop where
  -- What means itself, and what nobody knows.
  | nil {env : Env} : Evaluates basis env .nil (.ok .nil) []
  | int {env : Env} {n : Int} : Evaluates basis env (.int n) (.ok (.int n)) []
  | native {env : Env} {f : Native} : Evaluates basis env (.native f) (.ok (.native f)) []
  | closure {env : Env} {params : List Symbol} {body : Value} :
      Evaluates basis env (.closure params body) (.ok (.closure params body)) []
  | error {env : Env} {message : String} :
      Evaluates basis env (.error message) (.ok (.error message)) []
  | foreign {env : Env} {object : Foreign} :
      Evaluates basis env (.foreign object) (.error (.cannotEvaluate (.foreign object))) []
  -- Symbols.
  | symbolNil {env : Env} : Evaluates basis env (.symbol basis.nil) (.ok .nil) []
  | symbolTrue {env : Env} : Evaluates basis env (.symbol basis.t) (.ok (.symbol basis.t)) []
  | bound {env : Env} {s : Symbol} {v : Value}
      (hnil : s ≠ basis.nil) (htrue : s ≠ basis.t) (hlookup : env.lookup s = some v) :
      Evaluates basis env (.symbol s) (.ok v) []
  | unbound {env : Env} {s : Symbol}
      (hnil : s ≠ basis.nil) (htrue : s ≠ basis.t) (hlookup : env.lookup s = none) :
      Evaluates basis env (.symbol s) (.ok (.fault .undefinedSymbol)) []
  -- Quoting gives all that follows the head.
  | quote {env : Env} {parts : Value} :
      Evaluates basis env (.pair (basis.head .quote) parts) (.ok parts) []
  -- Conditionals: the three parts have to be there, and what comes after them does not count.
  | ifMissing {env : Env} {parts : Value} (hparts : parts.elements.length < 3) :
      Evaluates basis env (.pair (basis.head .conditional) parts) (.ok (.fault .missingPart)) []
  | ifViolation {env : Env} {test consequent alternative rest : Value} {v : Violation}
      {calls : List Call} (htest : Evaluates basis env test (.error v) calls) :
      Evaluates basis env
        (.pair (basis.head .conditional) (.chain [test, consequent, alternative] rest))
        (.error v) calls
  | ifError {env : Env} {test consequent alternative rest : Value} {message : String}
      {calls : List Call} (htest : Evaluates basis env test (.ok (.error message)) calls) :
      Evaluates basis env
        (.pair (basis.head .conditional) (.chain [test, consequent, alternative] rest))
        (.ok (.error message)) calls
  | ifFalse {env : Env} {test consequent alternative rest : Value}
      {outcome : Except Violation Value} {calls more : List Call}
      (htest : Evaluates basis env test (.ok .nil) calls)
      (hbranch : Evaluates basis env alternative outcome more) :
      Evaluates basis env
        (.pair (basis.head .conditional) (.chain [test, consequent, alternative] rest))
        outcome (calls ++ more)
  | ifTrue {env : Env} {test consequent alternative rest v : Value}
      {outcome : Except Violation Value} {calls more : List Call}
      (htest : Evaluates basis env test (.ok v) calls) (hv : v ≠ .nil) (herror : v.isError = false)
      (hbranch : Evaluates basis env consequent outcome more) :
      Evaluates basis env
        (.pair (basis.head .conditional) (.chain [test, consequent, alternative] rest))
        outcome (calls ++ more)
  -- Functions: a list of symbols and one body. What is wrong with the list comes before what is
  -- wrong with the body, and of the list the first defect counts.
  | lambda {env : Env} {params : List Symbol} {body : Value} :
      Evaluates basis env
        (.pair (basis.head .lambda) (.ofList [.ofList (params.map .symbol), body]))
        (.ok (.closure params body)) []
  | lambdaMissing {env : Env} {parts : Value} (hparts : parts.isPair = false) :
      Evaluates basis env (.pair (basis.head .lambda) parts) (.ok (.fault .missingPart)) []
  | lambdaNotSymbol {env : Env} {params : List Symbol} {v rest bodies : Value}
      (hv : v.isSymbol = false) :
      Evaluates basis env
        (.pair (basis.head .lambda) (.pair (.chain (params.map .symbol) (.pair v rest)) bodies))
        (.ok (.fault .notSymbol)) []
  | lambdaNotList {env : Env} {params : List Symbol} {tail bodies : Value}
      (htail : tail ≠ .nil) (hpair : tail.isPair = false) :
      Evaluates basis env
        (.pair (basis.head .lambda) (.pair (.chain (params.map .symbol) tail) bodies))
        (.ok (.fault .missingPart)) []
  | lambdaNoBody {env : Env} {params : List Symbol} {bodies : Value}
      (hbodies : bodies.isPair = false) :
      Evaluates basis env (.pair (basis.head .lambda) (.pair (.ofList (params.map .symbol)) bodies))
        (.ok (.fault .missingPart)) []
  | lambdaExtra {env : Env} {params : List Symbol} {body rest : Value} (hrest : rest ≠ .nil) :
      Evaluates basis env
        (.pair (basis.head .lambda) (.pair (.ofList (params.map .symbol)) (.pair body rest)))
        (.ok (.fault .extraPart)) []
  -- Applications: the head, then the arguments, then the call. Each step needs the one before.
  | headViolation {env : Env} {head arguments : Value} {v : Violation} {calls : List Call}
      (hkeyword : head ∉ basis.heads) (hhead : Evaluates basis env head (.error v) calls) :
      Evaluates basis env (.pair head arguments) (.error v) calls
  | headError {env : Env} {head arguments : Value} {message : String} {calls : List Call}
      (hkeyword : head ∉ basis.heads)
      (hhead : Evaluates basis env head (.ok (.error message)) calls) :
      Evaluates basis env (.pair head arguments) (.ok (.error message)) calls
  | headNotFunction {env : Env} {head arguments f : Value} {calls : List Call}
      (hkeyword : head ∉ basis.heads) (hhead : Evaluates basis env head (.ok f) calls)
      (herror : f.isError = false) (hf : f.isFunction = false) :
      Evaluates basis env (.pair head arguments) (.ok (.fault .notFunction)) calls
  | argumentsViolation {env : Env} {head arguments f : Value} {v : Violation}
      {calls more : List Call}
      (hkeyword : head ∉ basis.heads) (hhead : Evaluates basis env head (.ok f) calls)
      (hf : f.isFunction = true)
      (harguments : EvaluatesArguments basis env arguments (.error v) more) :
      Evaluates basis env (.pair head arguments) (.error v) (calls ++ more)
  | argumentsError {env : Env} {head arguments f : Value} {message : String}
      {calls more : List Call}
      (hkeyword : head ∉ basis.heads) (hhead : Evaluates basis env head (.ok f) calls)
      (hf : f.isFunction = true)
      (harguments : EvaluatesArguments basis env arguments (.ok (.error message)) more) :
      Evaluates basis env (.pair head arguments) (.ok (.error message)) (calls ++ more)
  | application {env : Env} {head arguments f : Value} {vs : List Value}
      {outcome : Except Violation Value} {calls more last : List Call}
      (hkeyword : head ∉ basis.heads) (hhead : Evaluates basis env head (.ok f) calls)
      (hf : f.isFunction = true)
      (harguments : EvaluatesArguments basis env arguments (.ok (.ok vs)) more)
      (happly : Applies basis env f vs outcome last) :
      Evaluates basis env (.pair head arguments) outcome (calls ++ (more ++ last))

/-- In `env`, the arguments come to the outcome from left to right, and make the calls. -/
inductive EvaluatesArguments (basis : Basis) :
    Env → Value → Except Violation (Except String (List Value)) → List Call → Prop where
  | nil {env : Env} : EvaluatesArguments basis env .nil (.ok (.ok [])) []
  | notList {env : Env} {tail : Value} (htail : tail ≠ .nil) (hpair : tail.isPair = false) :
      EvaluatesArguments basis env tail (.ok (.error Fault.notList.message)) []
  | firstViolation {env : Env} {first rest : Value} {v : Violation} {calls : List Call}
      (hfirst : Evaluates basis env first (.error v) calls) :
      EvaluatesArguments basis env (.pair first rest) (.error v) calls
  | firstError {env : Env} {first rest : Value} {message : String} {calls : List Call}
      (hfirst : Evaluates basis env first (.ok (.error message)) calls) :
      EvaluatesArguments basis env (.pair first rest) (.ok (.error message)) calls
  | restViolation {env : Env} {first rest v : Value} {violation : Violation}
      {calls more : List Call}
      (hfirst : Evaluates basis env first (.ok v) calls) (herror : v.isError = false)
      (hrest : EvaluatesArguments basis env rest (.error violation) more) :
      EvaluatesArguments basis env (.pair first rest) (.error violation) (calls ++ more)
  | restError {env : Env} {first rest v : Value} {message : String} {calls more : List Call}
      (hfirst : Evaluates basis env first (.ok v) calls) (herror : v.isError = false)
      (hrest : EvaluatesArguments basis env rest (.ok (.error message)) more) :
      EvaluatesArguments basis env (.pair first rest) (.ok (.error message)) (calls ++ more)
  | cons {env : Env} {first rest v : Value} {vs : List Value} {calls more : List Call}
      (hfirst : Evaluates basis env first (.ok v) calls) (herror : v.isError = false)
      (hrest : EvaluatesArguments basis env rest (.ok (.ok vs)) more) :
      EvaluatesArguments basis env (.pair first rest) (.ok (.ok (v :: vs))) (calls ++ more)

/-- Called in `env`, the function takes the values to the outcome, and makes the calls. -/
inductive Applies (basis : Basis) :
    Env → Value → List Value → Except Violation Value → List Call → Prop where
  | builtin {env : Env} {b : Builtin} {vs : List Value} :
      Applies basis env (.native (.builtin b)) vs (b.call (.ofList vs))
        [⟨.builtin b, .ofList vs⟩]
  | host {env : Env} {id : Nat} {name : String} {vs : List Value} :
      Applies basis env (.native (.host id name)) vs (basis.host id (.ofList vs))
        [⟨.host id name, .ofList vs⟩]
  | tooMany {env : Env} {params : List Symbol} {body : Value} {vs : List Value}
      (hlength : params.length < vs.length) :
      Applies basis env (.closure params body) vs (.ok (.fault .tooManyArguments)) []
  | tooFew {env : Env} {params : List Symbol} {body : Value} {vs : List Value}
      (hlength : vs.length < params.length) :
      Applies basis env (.closure params body) vs (.ok (.fault .tooFewArguments)) []
  -- The frame of the call goes in front of the frames in force where the call is made.
  | body {env : Env} {params : List Symbol} {body : Value} {vs : List Value}
      {outcome : Except Violation Value} {calls : List Call}
      (hlength : vs.length = params.length)
      (hbody : Evaluates basis (Frame.ofBindings (params.zip vs) :: env) body outcome calls) :
      Applies basis env (.closure params body) vs outcome calls

end

end PocketLisp
