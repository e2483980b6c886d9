import DualStore.Grammar.Query
import DualStore.Grammar.Statement
import DualStore.Http.Message
import DualStore.Index.Results
import DualStore.Json.Read
import DualStore.Text.Percent

/-! An index on a server, with one dataset per space: the requests it is sent and what its responses
mean. -/

namespace DualStore

structure Server where
  baseUrl : String := "http://localhost:3030"
  /-- Milliseconds that a request may take. -/
  timeout : Nat := 10000
  /-- The kind of storage that new datasets are to have. -/
  storage : String := "tdb2"
  deriving DecidableEq, Repr

namespace Server

/-- How the service presents itself to the server. -/
def userAgent : String := "quadsync_core/0.1.0"

/-- The base of all URLs, without slashes at its end. -/
def base (s : Server) : String :=
  String.ofList (s.baseUrl.toList.reverse.dropWhile (· = '/')).reverse

/-- What a response means, unless it is an error. -/
def accept (action space : String) (r : Http.Response) : Except IndexFault Http.Response :=
  if r.isError then .error (.failed action space (Http.statusText r.status) r.text) else .ok r

/-! ## Datasets -/

def createRequest (s : Server) (space : String) : Http.Request where
  method := .post
  url := s!"{s.base}/$/datasets"
  contentType := some "application/x-www-form-urlencoded"
  body := Text.formBody [("dbName", space), ("dbType", s.storage)]

/-- A dataset that is there already is none to be made. -/
def created (space : String) (r : Http.Response) : Except IndexFault Unit :=
  if r.status = 409 then .ok () else (accept "creating dataset" space r).map fun _ => ()

def removeRequest (s : Server) (space : String) : Http.Request where
  method := .delete
  url := s!"{s.base}/$/datasets/{space}"

/-- A dataset that is not there is none to be dropped. -/
def removed (space : String) (r : Http.Response) : Except IndexFault Unit :=
  if r.status = 404 then .ok () else (accept "dropping dataset" space r).map fun _ => ()

/-! ## Content -/

def updateRequest (s : Server) (space text : String) : Http.Request where
  method := .post
  url := s!"{s.base}/{space}/update"
  contentType := some "application/sparql-update"
  body := text

def updated (space : String) (r : Http.Response) : Except IndexFault Unit :=
  (accept "updating" space r).map fun _ => ()

/-- The format in which a query of some form is answered. -/
def answerFormat (form : QueryForm) : String :=
  if form.returnsTriples then "application/n-triples" else "application/sparql-results+json"

def queryRequest (s : Server) (space : String) (form : QueryForm) (text : String) :
    Http.Request where
  method := .post
  url := s!"{s.base}/{space}/query"
  contentType := some "application/sparql-query"
  accept := answerFormat form
  body := text

def queried (space : String) (form : QueryForm) (r : Http.Response) :
    Except IndexFault Answer := do
  let r ← accept "querying" space r
  if form.returnsTriples then
    ((Triple.listOfText r.text).mapError fun fault => .refused (.request fault)).map .triples
  else match Json.readWritten? r.content with
    | some j => Results.answer j
    | none => throw .undecodable

end Server
end DualStore
