import BarReplay.Json.Parser
import BarReplay.Yahoo.Basic

namespace BarReplay.Yahoo

open Text

-- The answer to a request.
structure Response where
  status : Int
  text : String
  reason : String

-- What a client needs of the net, with effects in `m`. A request that gets no answer says why.
structure Net (m : Type → Type) where
  get : String → Option Parameters → m (Except String Response)
  clearCookies : m Unit
  sleep : Int → m Unit

-- Why nothing can be read from an answer: for a reason that is to be reckoned with, or for
-- another one.
inductive Refusal where
  | expected (reason : String)
  | unexpected (reason : String)

-- How answers are read: whether the request for a page has been refused, and the value that the
-- text of the answer stands for.
structure Reader where
  check : String → Response → Except Refusal Unit
  json : Response → Except Refusal Json

-- What is documented of a reader. It refuses the answers whose status is that of an error, from 400
-- to 599, and no others; it reads a text that is JSON as what it stands for, and says what is wrong
-- with another text; and it fails in no other way.
structure Reader.Documented (reader : Reader) : Prop where
  refuses : ∀ url r, 400 ≤ r.status → r.status < 600 →
    ∃ reason, reader.check url r = .error (.expected reason)
  takes : ∀ url r, r.status < 400 ∨ 600 ≤ r.status → reader.check url r = .ok ()
  reads : ∀ r value, Json.parse r.text = .ok value → reader.json r = .ok value
  explains : ∀ r e, Json.parse r.text = .error e → reader.json r = .error (.expected e.message)

-- A client for charts: how often a request is repeated, and how long it waits in between. The
-- n-th wait is the base to the power of n, from zero.
structure Client where
  retries : Int
  backoffBase : Int
  reader : Reader

def Client.standard (reader : Reader) : Client := ⟨3, 2, reader⟩

-- A text that goes with every request. It is kept from one request to the next.
abbrev Crumb := Option String

namespace Client

variable {m : Type → Type} [Monad m]

-- What a client does. The crumb stays as it is when something fails later on.
abbrev Action (m : Type → Type) (β : Type) := ExceptT Error (StateT Crumb m) β

def request (net : Net m) (url : String) (parameters : Option Parameters) :
    Action m (Except String Response) :=
  ExceptT.lift (StateT.lift (net.get url parameters))

-- A request that is only good for its answer.
def ask (net : Net m) (url : String) : Action m Response := do
  match ← request net url none with
  | .ok r => return r
  | .error reason => throw (.breakdown (.connection reason))

-- Whether the characters of `part` stand in a row somewhere.
def occursIn (part : List Char) : List Char → Bool
  | [] => part.isEmpty
  | c :: cs => part.isPrefixOf (c :: cs) || occursIn part cs

-- The crumb in an answer.
def crumb? (r : Response) : Option String :=
  let text := strip r.text
  let holds (part : String) : Bool := occursIn part.toList text.toList
  if r.status = 200 ∧ ¬ text.isEmpty ∧ ¬ holds "Too Many" ∧ ¬ holds "Invalid" then some text
  else none

def crumbPages : List String :=
  ["https://query1.finance.yahoo.com/v1/test/getcrumb",
    "https://query2.finance.yahoo.com/v1/test/getcrumb"]

-- Takes the crumb of the first page that has one.
def findCrumb (net : Net m) : List String → Action m Unit
  | [] => throw (.source (.noChart "Could not obtain Yahoo crumb for chart API."))
  | page :: rest => do
    match crumb? (← ask net page) with
    | some text => set (some text)
    | none => findCrumb net rest

-- Gets cookies and a crumb anew.
def refresh (net : Net m) : Action m Unit := do
  ExceptT.lift (StateT.lift net.clearCookies)
  let _ ← ask net "https://fc.yahoo.com"
  findCrumb net crumbPages

def withCrumb (parameters : Parameters) (crumb : Crumb) : Parameters :=
  Json.put parameters "crumb" ((crumb.map Json.text).getD .null)

-- The chart that stands for a ticker that is not known.
def notFound : Json :=
  .object [("chart", .object [("result", .null), ("error", .object [("code", .text "Not Found")])])]

-- The chart in an answer that is not to be waited for.
def read (client : Client) (url : String) (r : Response) : Except Refusal Json := do
  client.reader.check url r
  client.reader.json r

-- The statuses that are worth a wait.
def busy (status : Int) : Bool :=
  [429, 500, 502, 503, 504].contains status

def chartFailed (ticker reason : String) : Error :=
  .source (.noChart ("Yahoo chart request for " ++ ticker ++ " failed: " ++ reason))

-- An answer from which nothing can be read is a failed request, unless that was not to be reckoned
-- with.
def refused (ticker : String) : Refusal → Error
  | .expected reason => chartFailed ticker reason
  | .unexpected reason => .breakdown (.reader reason)

-- Tries up to `left` more times. A crumb that is refused is replaced, and a server that is busy
-- is waited for.
def attempt (client : Client) (net : Net m) (ticker url : String) (parameters : Parameters)
    (last : Option Int) (number : Nat) : Nat → Action m Json
  | 0 =>
    throw (.source (.noChart ("Yahoo chart request failed after " ++
      Decimal.textInt client.retries ++ " retries (last status=" ++
      (last.map Decimal.textInt).getD "None" ++ ")")))
  | left + 1 => do
    match ← request net url (some parameters) with
    | .error reason => throw (chartFailed ticker reason)
    | .ok r =>
      if r.status = 401 then
        refresh net
        attempt client net ticker url (withCrumb parameters (← get)) (some r.status) (number + 1) left
      else if r.status = 404 then
        return notFound
      else if busy r.status then
        ExceptT.lift (StateT.lift (net.sleep (Int.pow client.backoffBase number)))
        attempt client net ticker url parameters (some r.status) (number + 1) left
      else
        match client.read url r with
        | .ok chart => return chart
        | .error refusal => throw (refused ticker refusal)

def chart (client : Client) (net : Net m) (ticker : String) (parameters : Parameters) :
    Action m Json := do
  if (((← get).getD "").isEmpty) then refresh net
  attempt client net ticker ("https://query1.finance.yahoo.com/v8/finance/chart/" ++ ticker)
    (withCrumb parameters (← get)) none 0 client.retries.toNat

end Client

end BarReplay.Yahoo
