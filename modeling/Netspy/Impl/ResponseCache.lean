import Netspy.Framework.Machine
import Netspy.Impl.ParserControl

/-!
# `network/cache.py`, and `download_request`

The response cache with the passes of requests through the workers: `load`, the
download, `store`, and what `_process` makes of the response. A pass is known by its
number; which thread it is in plays no part. Between two steps a hook may change the
request of a pass to anything.

The directory maps the name of an entry, which is a fingerprint, to the response that
was written, with the time of the file. A file that cannot be read is part of the
action, and so are what the network answers, a block that `antibot` finds, and whether
the file could be written. `log` holds the downloads and removals, the last first.
-/

namespace Netspy

structure CacheEntry where
  response : Response
  mtime : Nat
  deriving DecidableEq

abbrev CacheDir := String → Option CacheEntry

namespace ResponseCache

variable (lib : Stdlib) (st : Setting)

def _entry_path (request : Request) : Except Exn String := request.fingerprint lib

def _cacheable (request : Request) : Bool := request.method == "GET"

def expired (now : Nat) (entry : CacheEntry) : Bool :=
  decide (0 < st.RESPONSE_CACHE_EXPIRE ∧ st.RESPONSE_CACHE_EXPIRE < now - entry.mtime)

def load (dir : CacheDir) (now : Nat) (readable : Bool) (request : Request) : Except Exn (Option Response) :=
  if !st.RESPONSE_CACHE_ENABLE || !_cacheable request then .ok none
  else do
    let path ← _entry_path lib request
    match dir path with
    | none => return none
    | some entry => return if expired st now entry || !readable then none else some entry.response

def store (dir : CacheDir) (now : Nat) (written : Bool) (request : Request) (response : Response) :
    Except Exn CacheDir :=
  if !st.RESPONSE_CACHE_ENABLE || !_cacheable request then .ok dir
  else if classify st response ≠ .ok then .ok dir
  else do
    let path ← _entry_path lib request
    return if written then Function.update dir path (some ⟨response, now⟩) else dir

end ResponseCache

/-- What `_process` makes of a response. -/
inductive Judgement where
  | accepted
  /-- `process_response` of a middleware returned a request. -/
  | replaced (retry : Request)
  /-- `validate` raised a `ValidationError`. -/
  | invalid
  /-- The callback raised an exception. -/
  | parseError

/-- The request that is put for a retry, if there is one: `_retry_replacement` and
`_retry_or_fail`. -/
def Judgement.retry (st : Setting) (request : Request) : Judgement → Option Request
  | .accepted => none
  | .replaced retry =>
    if st.SPIDER_MAX_RETRY_TIMES ≤ request.retryTimes then none
    else some { retry with retryTimes := request.retryTimes + 1, filterRepeat := false }
  | .invalid | .parseError =>
    if st.SPIDER_MAX_RETRY_TIMES ≤ request.retryTimes then none
    else some { request with retryTimes := request.retryTimes + 1, filterRepeat := false }

/-- `rejected` is the response whose retry a request is. -/
inductive Pass where
  | waiting (request : Request) (rejected : Option Response)
  | downloading (request : Request) (rejected : Option Response)
  /-- `download_request` has returned. -/
  | answered (request : Request) (response : Response)
  | ended
  deriving DecidableEq

inductive CacheEvent where
  | downloaded (request : Request) (response : Response) (time : Nat) (written : Bool)
  | removed (path : String)

structure CacheCrawl where
  now : Nat := 0
  dir : CacheDir := fun _ => none
  passes : List Pass := []
  log : List CacheEvent := []

inductive CacheAct where
  | clock (now : Nat)
  | submit (request : Request)
  | change (i : Nat) (request : Request)
  /-- `download_request` up to the download. -/
  | load (i : Nat) (readable : Bool)
  /-- The download raised, or `antibot` did. -/
  | raise (i : Nat)
  /-- The download returned, and the response is stored. -/
  | store (i : Nat) (response : Response) (written : Bool)
  | judge (i : Nat) (judgement : Judgement)
  /-- `clear` removes a file, or someone else does. -/
  | remove (path : String)

namespace CacheCrawl

variable (lib : Stdlib) (st : Setting)

def setPass (s : CacheCrawl) (i : Nat) (pass : Pass) : CacheCrawl := { s with passes := s.passes.set i pass }

def step (s : CacheCrawl) : CacheAct → Option CacheCrawl
  | .clock now => some { s with now }
  | .submit request => some { s with passes := s.passes ++ [.waiting request none] }
  | .change i request =>
    match s.passes[i]? with
    | some (.waiting _ rejected) => some (s.setPass i (.waiting request rejected))
    | some (.answered _ response) => some (s.setPass i (.answered request response))
    | _ => none
  | .load i readable =>
    match s.passes[i]? with
    | some (.waiting request rejected) =>
      some <|
        match ResponseCache.load lib st s.dir s.now readable request with
        | .error _ => s.setPass i .ended
        | .ok (some response) => s.setPass i (.answered request response)
        | .ok none => s.setPass i (.downloading request rejected)
    | _ => none
  | .raise i =>
    match s.passes[i]? with
    | some (.downloading _ _) => some (s.setPass i .ended)
    | _ => none
  | .store i response written =>
    match s.passes[i]? with
    | some (.downloading request _) =>
      some <|
        match ResponseCache.store lib st s.dir s.now written request response with
        | .error _ => s.setPass i .ended
        | .ok dir =>
          { s.setPass i (.answered request response) with
            dir := dir, log := .downloaded request response s.now written :: s.log }
    | _ => none
  | .judge i judgement =>
    match s.passes[i]? with
    | some (.answered request response) =>
      let s := s.setPass i .ended
      some <|
        match judgement.retry st request with
        | none => s
        | some retry => { s with passes := s.passes ++ [.waiting retry (some response)] }
    | _ => none
  | .remove path => some { s with dir := Function.update s.dir path none, log := .removed path :: s.log }

def machine : Machine CacheCrawl CacheAct where
  start s := s = {}
  step := step lib st

end CacheCrawl

end Netspy
