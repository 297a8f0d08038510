import TokenDog.Runtime
import TokenDog.Middleware.Context

/-!
# The regular handler

`proxy_handler` forwards a request to the next worker and streams the worker's response back. The
request is counted from the selection until the handler's future is gone.
-/

namespace TokenDog

def maxBodySize : Nat := 16 * 1024 * 1024

inductive ProxyError where
  | urlParse (error : String)
  | workerRequest (error : ReqwestError)
  | bodyCollect (error : String)
  | responseBuild (error : String)
  | noHealthyWorkers

namespace ProxyError

def statusAndMessage : ProxyError → Nat × String
  | .urlParse _ => (502, "invalid worker URL")
  | .workerRequest error =>
      if error.isTimeout then (504, "worker timeout")
      else if error.isConnect then (502, "worker connection failed")
      else (502, "worker error")
  | .bodyCollect _ => (400, "failed to read request body")
  | .responseBuild _ => (500, "internal error")
  | .noHealthyWorkers => (503, "no healthy workers available")

def intoResponse (error : ProxyError) : Response WorkerId :=
  { status := error.statusAndMessage.1
    headers := [("content-type", "text/plain; charset=utf-8".toUTF8.toList)]
    body := .bytes error.statusAndMessage.2.toUTF8 }

end ProxyError

def proxyHandler (crates : Crates) (parts : Parts) :
    Handler (Except ProxyError (Response WorkerId)) := do
  match ← Handler.collect with
  | .error e => return .error (.bodyCollect e)
  | .ok bodyBytes =>
      if maxBodySize < bodyBytes.size then
        return .error (.bodyCollect "request body too large")
      else
        match extractContext crates bodyBytes parts.headers with
        | .error _ => .panic
        | .ok ctx =>
            let headers := parts.headers.remove "host"
            match ← Handler.next .regular ctx with
            | none => return .error .noHealthyWorkers
            | some (workerIdx, workerUrl) =>
                Handler.activeRequest workerIdx
                match crates.parseUrl (trimEndMatches workerUrl '/' ++ parts.pathAndQuery) with
                | .error e => return .error (.urlParse e)
                | .ok target =>
                    match ← Handler.send .regular
                        { method := parts.method, url := target, headers, body := bodyBytes } with
                    | .error e => return .error (.workerRequest e)
                    | .ok workerResp =>
                        let filteredHeaders := filterHopByHop workerResp.headers
                        -- the routing decision is recorded before the response is built
                        Handler.record .regular ctx workerIdx
                        match crates.builderError workerResp.status filteredHeaders with
                        | some e => return .error (.responseBuild e)
                        | none =>
                            return .ok
                              { status := workerResp.status
                                headers := filteredHeaders
                                body := .stream (.regular, workerIdx) }

end TokenDog
