import TokenDog.Http
import TokenDog.Selection
import TokenDog.Lib.Interleaved

/-!
# What handlers do

A handler runs operations on the application state and waits for the client's body and for the
workers. Handlers run concurrently over one `AppState` while health checks write its flags.
-/

namespace TokenDog

abbrev WorkerId := Pool × Nat

inductive RouterOp where
  | next (pool : Pool) (ctx : RequestContext)
  | finish (pool : Pool) (workerIdx : Nat)
  | record (pool : Pool) (ctx : RequestContext) (workerIdx : Nat)
  /-- `rand::random::<i64>()`. -/
  | random

@[reducible]
def RouterOp.Result : RouterOp → Type
  | .next _ _ => Option (Nat × String)
  | .finish _ _ => Unit
  | .record _ _ _ => Unit
  | .random => Int

/-- What a handler waits for. The pool is the one of the worker it waits for. A request is what is
handed to the HTTP client; redirects that the client follows by itself are part of the reply. -/
inductive RouterCall where
  | collect
  | send (pool : Pool) (request : Outgoing)
  /-- `try_join!` of two requests, which fails with the first failure of either. -/
  | sendBoth (prefill decode : Outgoing)
  | bytes (pool : Pool) (response : WorkerResponse)
  | text (pool : Pool) (response : WorkerResponse)

@[reducible]
def RouterCall.Reply : RouterCall → Type
  | .collect => Except String ByteArray
  | .send _ _ => Except ReqwestError WorkerResponse
  | .sendBoth _ _ => Except ReqwestError (WorkerResponse × WorkerResponse)
  | .bytes _ _ => Except ReqwestError ByteArray
  | .text _ _ => String

abbrev router : Programs.Interface := ⟨RouterOp, RouterOp.Result, RouterCall, RouterCall.Reply⟩

abbrev Handler := Programs.Program router

namespace Handler

def next (pool : Pool) (ctx : RequestContext) : Handler (Option (Nat × String)) :=
  .run router (.next pool ctx)

def finish (pool : Pool) (workerIdx : Nat) : Handler Unit := .run router (.finish pool workerIdx)

def record (pool : Pool) (ctx : RequestContext) (workerIdx : Nat) : Handler Unit :=
  .run router (.record pool ctx workerIdx)

def random : Handler Int := .run router .random

/-- Hold an `ActiveRequest`, which finishes the request when the handler's future is gone. -/
def activeRequest (workerIdx : Nat) : Handler Unit := .deferred router (.finish .regular workerIdx)

def collect : Handler (Except String ByteArray) := .wait router .collect

def send (pool : Pool) (request : Outgoing) : Handler (Except ReqwestError WorkerResponse) :=
  .wait router (.send pool request)

def sendBoth (prefill decode : Outgoing) :
    Handler (Except ReqwestError (WorkerResponse × WorkerResponse)) :=
  .wait router (.sendBoth prefill decode)

def bytes (pool : Pool) (response : WorkerResponse) : Handler (Except ReqwestError ByteArray) :=
  .wait router (.bytes pool response)

/-- `text().await.unwrap_or_default()`. -/
def text (pool : Pool) (response : WorkerResponse) : Handler String := .wait router (.text pool response)

end Handler

section Rules

variable {α : Type} {spec : Programs.Spec router}
  {post : α → Programs.Trace router → List RouterOp → Prop} {trace : Programs.Trace router}
  {deferred : List RouterOp}

@[simp]
theorem wp_next_bind (pool : Pool) (ctx : RequestContext)
    (f : Option (Nat × String) → Handler α) :
    Programs.wp spec (Handler.next pool ctx >>= f) post trace deferred ↔
      spec.may trace (.next pool ctx) ∧
        spec.ends (.panicked (some (.next pool ctx)) :: trace) deferred ∧
          ∀ result : Option (Nat × String),
            Programs.wp spec (f result) post (.ran (.next pool ctx) result :: trace) deferred :=
  @Programs.wp_run_bind router _ spec post trace deferred (.next pool ctx) f

@[simp]
theorem wp_finish_bind (pool : Pool) (workerIdx : Nat) (f : Unit → Handler α) :
    Programs.wp spec (Handler.finish pool workerIdx >>= f) post trace deferred ↔
      spec.may trace (.finish pool workerIdx) ∧
        spec.ends (.panicked (some (.finish pool workerIdx)) :: trace) deferred ∧
          ∀ result : Unit,
            Programs.wp spec (f result) post (.ran (.finish pool workerIdx) result :: trace)
              deferred :=
  @Programs.wp_run_bind router _ spec post trace deferred (.finish pool workerIdx) f

@[simp]
theorem wp_record_bind (pool : Pool) (ctx : RequestContext) (workerIdx : Nat)
    (f : Unit → Handler α) :
    Programs.wp spec (Handler.record pool ctx workerIdx >>= f) post trace deferred ↔
      spec.may trace (.record pool ctx workerIdx) ∧
        spec.ends (.panicked (some (.record pool ctx workerIdx)) :: trace) deferred ∧
          ∀ result : Unit,
            Programs.wp spec (f result) post (.ran (.record pool ctx workerIdx) result :: trace)
              deferred :=
  @Programs.wp_run_bind router _ spec post trace deferred (.record pool ctx workerIdx) f

@[simp]
theorem wp_random_bind (f : Int → Handler α) :
    Programs.wp spec (Handler.random >>= f) post trace deferred ↔
      spec.may trace .random ∧ spec.ends (.panicked (some .random) :: trace) deferred ∧
        ∀ draw : Int, Programs.wp spec (f draw) post (.ran .random draw :: trace) deferred :=
  @Programs.wp_run_bind router _ spec post trace deferred .random f

@[simp]
theorem wp_activeRequest_bind (workerIdx : Nat) (f : Unit → Handler α) :
    Programs.wp spec (Handler.activeRequest workerIdx >>= f) post trace deferred ↔
      Programs.wp spec (f ()) post trace (.finish .regular workerIdx :: deferred) :=
  @Programs.wp_deferred_bind router _ spec post trace deferred (.finish .regular workerIdx) f

@[simp]
theorem wp_collect_bind (f : Except String ByteArray → Handler α) :
    Programs.wp spec (Handler.collect >>= f) post trace deferred ↔
      spec.ends (.dropped .collect :: trace) deferred ∧
        ∀ reply : Except String ByteArray,
          Programs.wp spec (f reply) post (.replied .collect reply :: trace) deferred :=
  @Programs.wp_wait_bind router _ spec post trace deferred .collect f

@[simp]
theorem wp_send_bind (pool : Pool) (request : Outgoing)
    (f : Except ReqwestError WorkerResponse → Handler α) :
    Programs.wp spec (Handler.send pool request >>= f) post trace deferred ↔
      spec.ends (.dropped (.send pool request) :: trace) deferred ∧
        ∀ reply : Except ReqwestError WorkerResponse,
          Programs.wp spec (f reply) post (.replied (.send pool request) reply :: trace) deferred :=
  @Programs.wp_wait_bind router _ spec post trace deferred (.send pool request) f

@[simp]
theorem wp_sendBoth_bind (prefill decode : Outgoing)
    (f : Except ReqwestError (WorkerResponse × WorkerResponse) → Handler α) :
    Programs.wp spec (Handler.sendBoth prefill decode >>= f) post trace deferred ↔
      spec.ends (.dropped (.sendBoth prefill decode) :: trace) deferred ∧
        ∀ reply : Except ReqwestError (WorkerResponse × WorkerResponse),
          Programs.wp spec (f reply) post (.replied (.sendBoth prefill decode) reply :: trace)
            deferred :=
  @Programs.wp_wait_bind router _ spec post trace deferred (.sendBoth prefill decode) f

@[simp]
theorem wp_bytes_bind (pool : Pool) (response : WorkerResponse)
    (f : Except ReqwestError ByteArray → Handler α) :
    Programs.wp spec (Handler.bytes pool response >>= f) post trace deferred ↔
      spec.ends (.dropped (.bytes pool response) :: trace) deferred ∧
        ∀ reply : Except ReqwestError ByteArray,
          Programs.wp spec (f reply) post (.replied (.bytes pool response) reply :: trace)
            deferred :=
  @Programs.wp_wait_bind router _ spec post trace deferred (.bytes pool response) f

@[simp]
theorem wp_text_bind (pool : Pool) (response : WorkerResponse) (f : String → Handler α) :
    Programs.wp spec (Handler.text pool response >>= f) post trace deferred ↔
      spec.ends (.dropped (.text pool response) :: trace) deferred ∧
        ∀ reply : String,
          Programs.wp spec (f reply) post (.replied (.text pool response) reply :: trace) deferred :=
  @Programs.wp_wait_bind router _ spec post trace deferred (.text pool response) f

end Rules

/-- The operations on the application state, and the writes of the health checks. A selection (flags
and counters read, a worker chosen and counted) is one step, though the source does it on separate
atomics. -/
def machine : Programs.Machine router AppState where
  exec op app result app' :=
    match op, result with
    | .next pool ctx, result => ∃ ambient, app.next pool ctx ambient = .ok (result, app')
    | .finish pool workerIdx, _ => app.finish pool workerIdx = .ok app'
    | .record pool ctx workerIdx, _ => ∃ ambient, app' = app.record pool ctx workerIdx ambient
    | .random, draw => app' = app ∧ -2 ^ 63 ≤ draw ∧ draw < 2 ^ 63
  panics op app :=
    match op with
    | .next pool ctx => ∃ ambient panic, app.next pool ctx ambient = .error panic
    | .finish pool workerIdx => ∃ panic, app.finish pool workerIdx = .error panic
    | .record _ _ _ => False
    | .random => False
  moves app app' := ∃ flags, app' = app.setHealth flags

end TokenDog
