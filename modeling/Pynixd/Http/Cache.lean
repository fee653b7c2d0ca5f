import Mathlib
import Pynixd.Http.Narinfo
import Pynixd.Lib.Runs

/-!
# The HTTP cache

`PynixdHttpServer` of `pynixd/http_server.py` answers a `.narinfo` from the local store, or else
from the HTTP substituter that is the first to answer, with the URL pointed at itself.  The NAR
request for that URL is a second request: it is answered from the local store, or else with a
redirect to the substituter of the highest priority.  `race_http_narinfo` and
`upstream_nar_redirect` are of `pynixd/substitution_queue.py`.

* `agrees_of_steady` — in every run of `Steady` steps, every NAR agrees with every narinfo that was
  served for its URL.
-/

namespace Pynixd.Http

open List Runs

/-! ## The world -/

structure Upstream where
  storeId : String
  url : String
  priority : ℚ
  /-- The text of `<hash>.narinfo`, where the cache has one. -/
  narinfo : String → Option (List String)

/-- What a server is set up with, and the world around it. -/
structure Config where
  storeDir : String
  /-- The local store has a database, which finds a path by the hash of its NAR. -/
  hasDb : Bool
  /-- `http_substituter_stores`, in the order of their identifiers. -/
  upstreams : List Upstream
  /-- `upstream_race`, and there is a substitution queue. -/
  upstreamRace : Bool
  preferLocalNar : Bool
  /-- `urllib.parse.urljoin`. -/
  urljoin : String → String → String
  /-- What a GET of a URL of an upstream answers. -/
  files : String → File

/-- A narinfo of an upstream: its text, and what is read off it. -/
abbrev Found := List String × HTTPNarInfo

def Upstream.fetchNarinfo (u : Upstream) (storeDir hash : String) :
    Except WireError (Option Found) :=
  match u.narinfo hash with
  | none => .ok none
  | some raw => do
    let info ← parseNarinfo storeDir raw none
    pure (info.map fun info => (raw, info))

def Upstream.getNarinfo (u : Upstream) (storeDir path : String) :
    Except WireError (Option HTTPNarInfo) :=
  match u.narinfo (hashPart path) with
  | none => .ok none
  | some raw => parseNarinfo storeDir raw (some path)

/-- How a call of an upstream comes back: with what it has, with nothing, or not at all. -/
inductive Reply where
  | answers
  | misses
  | raises
  deriving DecidableEq

/-! ## The substitution queue -/

/-- `_UpstreamNarinfoRace`, with the upstreams that have not answered. -/
structure Race where
  hash : String
  pending : List Upstream
  winner : Option Found

def Race.isSettled (race : Race) : Bool := race.winner.isSome || race.pending.isEmpty

/-- What the HTTP cache uses of a `SubstitutionQueue`. -/
structure Queue where
  /-- `positive`: the paths, with the stores that have them. -/
  positive : List (String × String)
  negative : List (String × String)
  hashPaths : List (String × String)
  hashNegative : List String
  /-- `_http_races`: the race of a hash, by its number. -/
  httpRaces : List (String × Nat)
  races : List Race

inductive Racing where
  /-- `_cached_http_narinfo` asks the stores that are known to have the path. -/
  | asking (rest : List Upstream)
  | waiting (race : Nat)

/-- A cache has a result of the store for the path. -/
def isCached (cache : List (String × String)) (path : String) (u : Upstream) : Bool :=
  cache.any fun hit => hit.1 = path && hit.2 = u.storeId

section Queue

variable (c : Config) (q : Queue)

/-- The stores that have a path, by priority. -/
def ranked (path : String) : List Upstream :=
  (c.upstreams.filter fun u => isCached q.positive path u).insertionSort
    fun u v => u.priority ≤ v.priority

/-- The race of a hash, which is started where there is none. -/
def joinRace (hash : String) : Queue × Racing :=
  match Dict.get? q.httpRaces hash with
  | some race => (q, .waiting race)
  | none =>
    ({ q with
        races := q.races ++ [⟨hash, c.upstreams, none⟩]
        httpRaces := Dict.set q.httpRaces hash q.races.length },
      .waiting q.races.length)

/-- The next store to ask, or the race. -/
def askOrJoin (hash : String) : List Upstream → Queue × Racing
  | [] => joinRace c q hash
  | rest => (q, .asking rest)

/-- `race_http_narinfo`, up to its first await; `none` where it answers nothing at once. -/
def raceHttpNarinfo (hash : String) : Option (Queue × Racing) :=
  if hash ∈ q.hashNegative ∨ c.upstreams.isEmpty then none
  else
    match Dict.get? q.hashPaths hash with
    | none => some (joinRace c q hash)
    | some path => some (askOrJoin c q hash (ranked c q path))

/-- `race_http_narinfo`, from an await to its answer or to the next await. -/
def Racing.next (hash : String) (reply : Reply) :
    Racing → Option (Queue × (Option Found ⊕ Racing))
  | .asking [] => none
  | .asking (u :: rest) =>
    match reply, u.fetchNarinfo c.storeDir hash with
    | .answers, .ok (some found) => some (q, .inl (some found))
    | _, _ => some ((askOrJoin c q hash rest).1, .inr (askOrJoin c q hash rest).2)
  | .waiting race =>
    match q.races[race]? with
    | none => none
    | some r =>
      if r.isSettled then
        match r.winner with
        | some found => some ({ q with httpRaces := Dict.pop q.httpRaces hash }, .inl found)
        | none =>
          some ({ q with
              httpRaces := Dict.pop q.httpRaces hash
              hashNegative := hash :: q.hashNegative },
            .inl none)
      else none

/-- `_probe_http_narinfo`, once the upstream answered. -/
def probe (r : Nat) (race : Race) (u : Upstream) (reply : Reply) : Queue :=
  let pending := race.pending.filter (·.storeId ≠ u.storeId)
  match reply, u.fetchNarinfo c.storeDir race.hash with
  | .answers, .ok (some found) =>
    { q with
      hashPaths := Dict.set q.hashPaths race.hash found.2.path
      positive := (found.2.path, u.storeId) :: q.positive
      races := q.races.set r ⟨race.hash, pending, race.winner.or (some found)⟩ }
  | _, _ => { q with races := q.races.set r ⟨race.hash, pending, race.winner⟩ }

/-- `query_and_record`, once the upstream answered. -/
def record (path : String) (u : Upstream) (reply : Reply) : Queue :=
  match reply, u.getNarinfo c.storeDir path with
  | .answers, .ok (some _) => { q with positive := (path, u.storeId) :: q.positive }
  | _, _ => { q with negative := (path, u.storeId) :: q.negative }

def hasCachedResult (path : String) (u : Upstream) : Bool :=
  isCached q.positive path u || isCached q.negative path u

end Queue

/-- What the caches of the queue forget after a while, or when they are full. -/
inductive Expiry where
  | hashPath (hash : String)
  | hashNegative (hash : String)
  | positive (path : String)
  | negative (path : String)

def Queue.expire (q : Queue) : Expiry → Queue
  | .hashPath hash => { q with hashPaths := Dict.pop q.hashPaths hash }
  | .hashNegative hash => { q with hashNegative := q.hashNegative.filter (· ≠ hash) }
  | .positive path => { q with positive := q.positive.filter (·.1 ≠ path) }
  | .negative path => { q with negative := q.negative.filter (·.1 ≠ path) }

/-! ## The server -/

inductive Redirecting where
  | racing (r : Racing)
  /-- It waits for the stores that had no result for the path. -/
  | querying (path : String) (pending : List Upstream)
  /-- It asks the stores that have the path, by priority. -/
  | asking (path : String) (rest : List Upstream)

inductive Phase where
  | narinfo (hash : String) (at' : Racing)
  /-- A NAR request, with the narinfos that were served when it came, and the path of the local
  store that it falls back to. -/
  | nar (filename : String) (prior : List (List String)) (held : Option PathInfo)
      (at' : Redirecting)
  | ended

structure Answer where
  filename : String
  /-- The narinfos that were served when the request came. -/
  prior : List (List String)
  file : File

structure Server where
  paths : List PathInfo
  queue : Queue
  requests : List Phase
  served : List (List String)
  answers : List Answer

/-- `filename.split(".", 1)[0]`. -/
def fileHashPart (filename : String) : String :=
  String.ofList (filename.toList.takeWhile (· ≠ '.'))

/-- `resolve_path` and `get_path_info`. -/
def resolvePath (c : Config) (paths : List PathInfo) (hash : String) : Option PathInfo :=
  let byHashPart := paths.find? fun info => hashPart info.path = hash
  if c.hasDb ∧ hash.length = 64 then
    (paths.find? fun info => info.narHash = "sha256:" ++ hash) <|>
      (paths.find? fun info => info.narHash = hash) <|> byHashPart
  else byHashPart

namespace Server

variable (c : Config) (s : Server)

def setRequest (i : Nat) (phase : Phase) : Server :=
  { s with requests := s.requests.set i phase }

def serve (i : Nat) (lines : List String) : Server :=
  { s.setRequest i .ended with served := s.served ++ [lines] }

/-- A NAR request is answered with a file. -/
def answer (i : Nat) (filename : String) (prior : List (List String)) (file : File) : Server :=
  { s.setRequest i .ended with answers := s.answers ++ [⟨filename, prior, file⟩] }

/-- `handle_upstream_narinfo`, with the answer of the race. -/
def serveUpstream (i : Nat) : Option Found → Server
  | none => s.setRequest i .ended
  | some found => s.serve i (rewriteNarinfoUrl found.1 (hashPart found.2.path))

/-- `handle_nar`, with the answer of `redirect_to_upstream`.  Without one, a path that the local
store held is streamed, if it is still there. -/
def redirected (i : Nat) (filename : String) (prior : List (List String))
    (held : Option PathInfo) : Option String → Server
  | some url => s.answer i filename prior (c.files url)
  | none =>
    match held.bind fun info => s.paths.find? fun now =>
      now.path = info.path && now.narSize = info.narSize with
    | some now => s.answer i filename prior now.file
    | none => s.setRequest i .ended

/-- `upstream_nar_redirect`, from the ranking on. -/
def rank (i : Nat) (filename : String) (prior : List (List String)) (held : Option PathInfo)
    (path : String) : Server :=
  match ranked c s.queue path with
  | [] => s.redirected c i filename prior held none
  | rest => s.setRequest i (.nar filename prior held (.asking path rest))

/-- `upstream_nar_redirect`, once it has the path. -/
def select (i : Nat) (filename : String) (prior : List (List String)) (held : Option PathInfo)
    (healthy : List String) (path : String) : Server :=
  match c.upstreams.filter fun u =>
    !hasCachedResult s.queue path u && u.storeId ∈ healthy with
  | [] => s.rank c i filename prior held path
  | stale => s.setRequest i (.nar filename prior held (.querying path stale))

/-- `redirect_to_upstream`, up to its first await. -/
def redirect (i : Nat) (filename : String) (prior : List (List String)) (held : Option PathInfo)
    (healthy : List String) : Server :=
  if c.upstreamRace then
    match Dict.get? s.queue.hashPaths (fileHashPart filename) with
    | some path => s.select c i filename prior held healthy path
    | none =>
      match raceHttpNarinfo c s.queue (fileHashPart filename) with
      | none => s.redirected c i filename prior held none
      | some (q, r) => { s with queue := q }.setRequest i (.nar filename prior held (.racing r))
  else s.redirected c i filename prior held none

def handleNarinfo (hash : String) : Server :=
  let i := s.requests.length
  let s := { s with requests := s.requests ++ [.ended] }
  match resolvePath c s.paths hash with
  | some info => s.serve i (toNarinfo c.storeDir info)
  | none =>
    if c.upstreamRace then
      match raceHttpNarinfo c s.queue hash with
      | none => s
      | some (q, r) => { s with queue := q }.setRequest i (.narinfo hash r)
    else s

def handleNar (filename : String) (healthy : List String) : Server :=
  let i := s.requests.length
  let s := { s with requests := s.requests ++ [.ended] }
  if ".nar".toList.isSuffixOf filename.toList then
    match resolvePath c s.paths (fileHashPart filename) with
    | none => s.redirect c i filename s.served none healthy
    | some info =>
      if c.preferLocalNar then s.answer i filename s.served info.file
      else s.redirect c i filename s.served (some info) healthy
  else s

end Server

inductive Event where
  | getNarinfo (hash : String)
  /-- `GET /nar/<filename>`, and the stores whose answers are worth waiting for. -/
  | getNar (filename : String) (healthy : List String)
  /-- The call that a request waits for comes back. -/
  | goes (i : Nat) (reply : Reply) (healthy : List String)
  /-- A store that a request waits for has answered a query. -/
  | queried (i : Nat) (storeId : String) (reply : Reply)
  /-- A store has answered in a race. -/
  | probed (race : Nat) (storeId : String) (reply : Reply)
  /-- The local store gets a path, where it does not have it yet, or loses one. -/
  | imported (info : PathInfo)
  | deleted (path : String)
  | expired (what : Expiry)

def Server.goOn (c : Config) (s : Server) (i : Nat) (reply : Reply) (healthy : List String) :
    Phase → Option Server
  | .narinfo hash r =>
    match r.next c s.queue hash reply with
    | none => none
    | some (q, .inl found) => some ({ s with queue := q }.serveUpstream i found)
    | some (q, .inr r) => some ({ s with queue := q }.setRequest i (.narinfo hash r))
  | .nar filename prior held (.racing r) =>
    match r.next c s.queue (fileHashPart filename) reply with
    | none => none
    | some (q, .inl none) => some ({ s with queue := q }.redirected c i filename prior held none)
    | some (q, .inl (some found)) =>
      some ({ s with queue := q }.select c i filename prior held healthy found.2.path)
    | some (q, .inr r) =>
      some ({ s with queue := q }.setRequest i (.nar filename prior held (.racing r)))
  | .nar filename prior held (.asking path (u :: rest)) =>
    match reply, u.getNarinfo c.storeDir path with
    | .answers, .ok (some info) =>
      some (s.redirected c i filename prior held (some (c.urljoin u.url info.url)))
    | .answers, .error _ | .raises, _ => some (s.setRequest i .ended)
    | _, _ =>
      match rest with
      | [] => some (s.redirected c i filename prior held none)
      | rest => some (s.setRequest i (.nar filename prior held (.asking path rest)))
  | _ => none

/-- One of the queries that a NAR request waits for has come back. -/
def Server.queriedBy (c : Config) (s : Server) (i : Nat) (storeId : String) (reply : Reply) :
    Phase → Option Server
  | .nar filename prior held (.querying path pending) =>
    match pending.find? (·.storeId = storeId) with
    | none => none
    | some u =>
      let s := { s with queue := record c s.queue path u reply }
      match pending.filter (·.storeId ≠ storeId) with
      | [] => some (s.rank c i filename prior held path)
      | pending =>
        some (s.setRequest i (.nar filename prior held (.querying path pending)))
  | _ => none

def step (c : Config) (s : Server) : Event → Option Server
  | .getNarinfo hash => some (s.handleNarinfo c hash)
  | .getNar filename healthy => some (s.handleNar c filename healthy)
  | .goes i reply healthy => s.requests[i]?.bind (s.goOn c i reply healthy)
  | .queried i storeId reply => s.requests[i]?.bind (s.queriedBy c i storeId reply)
  | .probed r storeId reply =>
    s.queue.races[r]?.bind fun race =>
      (race.pending.find? (·.storeId = storeId)).map fun u =>
        { s with queue := probe c s.queue r race u reply }
  | .imported info =>
    some (if ∃ other ∈ s.paths, other.path = info.path then s
      else { s with paths := s.paths ++ [info] })
  | .deleted path => some { s with paths := s.paths.filter (·.path ≠ path) }
  | .expired what => some { s with queue := s.queue.expire what }

def start (paths : List PathInfo) : Server where
  paths := paths
  queue := ⟨[], [], [], [], [], []⟩
  requests := []
  served := []
  answers := []

/-! ## Agreement -/

/-- The narinfo sends its reader to this file of the cache. -/
def Asks (lines : List String) (filename : String) : Prop :=
  Dict.get? (fields lines) "URL" = some ("nar/" ++ filename)

instance (lines : List String) (filename : String) : Decidable (Asks lines filename) :=
  inferInstanceAs (Decidable (_ = _))

/-- The NAR is the one that every narinfo names which was served for its URL. -/
def Answer.Agrees (a : Answer) : Prop :=
  ∀ lines ∈ a.prior, Asks lines a.filename → Names lines a.file

instance (a : Answer) : Decidable a.Agrees :=
  inferInstanceAs (Decidable (∀ lines ∈ a.prior, Asks lines a.filename → Names lines a.file))

/-- The upstreams can send a NAR request for the hash to this file: one of them names a path under
the hash, and one of them has the path. -/
def Offers (c : Config) (hash : String) (file : File) : Prop :=
  ∃ v ∈ c.upstreams, ∃ found, v.fetchNarinfo c.storeDir hash = .ok (some found) ∧
    ∃ u ∈ c.upstreams, ∃ info, u.getNarinfo c.storeDir found.2.path = .ok (some info) ∧
      file = c.files (c.urljoin u.url info.url)

/-- A NAR request for the hash may mean the path: by its hash part, or by the hash of its NAR. -/
def Means (hash path : String) : Prop := hash = hashPart path ∨ hash.length = 64

/-- The narinfo names every NAR that the upstreams can answer its URL with, while the local store
leaves the answer to them. -/
def NamesUpstream (c : Config) (paths : List PathInfo) (lines : List String) : Prop :=
  ∀ filename, Asks lines filename → c.upstreamRace = true →
    (c.preferLocalNar = false ∨ resolvePath c paths (fileHashPart filename) = none) →
    ∀ file, Offers c (fileHashPart filename) file → Names lines file

/-- The narinfo names the NAR of the path, if its URL may mean the path. -/
def NamesLocal (info : PathInfo) (lines : List String) : Prop :=
  ∀ filename, Asks lines filename → Means (fileHashPart filename) info.path →
    Names lines info.file

/-- The narinfo that a call of `race_http_narinfo` has at hand. -/
def Racing.atHand? (c : Config) (q : Queue) (hash : String) : Racing → Option Found
  | .asking (u :: _) => (u.fetchNarinfo c.storeDir hash).toOption.join
  | .asking [] => none
  | .waiting r => q.races[r]?.bind (·.winner)

/-- The narinfo that a request may serve when it goes on. -/
def Phase.atHand? (c : Config) (q : Queue) : Phase → Option Found
  | .narinfo hash r => r.atHand? c q hash
  | _ => none

/-- **The steps that put no other NAR behind a URL.**  A path comes to the local store, or leaves
it, while every narinfo served for it names what its URL leads to from now on; and a narinfo goes
out while it names what its URL leads to. -/
def Steady (c : Config) (s : Server) : Event → Prop
  | .imported info =>
    (¬ ∃ other ∈ s.paths, other.path = info.path) → ∀ lines ∈ s.served, NamesLocal info lines
  | .deleted path =>
    ∀ lines ∈ s.served, NamesUpstream c (s.paths.filter (·.path ≠ path)) lines
  | .getNarinfo hash =>
    ∀ info, resolvePath c s.paths hash = some info →
      NamesUpstream c s.paths (toNarinfo c.storeDir info)
  | .goes i _ _ =>
    ∀ found, s.requests[i]?.bind (·.atHand? c s.queue) = some found →
      NamesUpstream c s.paths (rewriteNarinfoUrl found.1 (hashPart found.2.path)) ∧
        ∀ info ∈ s.paths,
          NamesLocal info (rewriteNarinfoUrl found.1 (hashPart found.2.path))
  | _ => True

/-! ## What the queue knows -/

/-- One of the upstreams has this narinfo under the hash. -/
def FoundAt (c : Config) (hash : String) (found : Found) : Prop :=
  ∃ v ∈ c.upstreams, v.fetchNarinfo c.storeDir hash = .ok (some found)

/-- Whatever the queue knows, one of the upstreams said. -/
structure Queue.Ok (c : Config) (q : Queue) : Prop where
  learned : ∀ {hash path}, Dict.get? q.hashPaths hash = some path →
    ∃ found, FoundAt c hash found ∧ found.2.path = path
  winners : ∀ race ∈ q.races, ∀ found, race.winner = some found → FoundAt c race.hash found
  pending : ∀ race ∈ q.races, race.pending ⊆ c.upstreams
  named : ∀ {hash r}, Dict.get? q.httpRaces hash = some r →
    ∃ race, q.races[r]? = some race ∧ race.hash = hash

/-- The races that there were keep their hashes. -/
def Queue.Grows (q q' : Queue) : Prop :=
  ∀ (r : Nat) (race : Race), q.races[r]? = some race →
    ∃ race' : Race, q'.races[r]? = some race' ∧ race'.hash = race.hash

theorem Queue.Grows.of_races {q q' : Queue} (h : q'.races = q.races) : q.Grows q' :=
  fun _ race hrace => ⟨race, h ▸ hrace, rfl⟩

/-- The stores that are asked are upstreams, and the race that is waited for is one of the hash. -/
def Racing.Ok (c : Config) (q : Queue) (hash : String) : Racing → Prop
  | .asking rest => rest ⊆ c.upstreams
  | .waiting r => ∃ race, q.races[r]? = some race ∧ race.hash = hash

theorem Racing.Ok.grows {c : Config} {q q' : Queue} {hash : String} {r : Racing}
    (h : r.Ok c q hash) (hq : q.Grows q') : r.Ok c q' hash := by
  cases r with
  | asking rest => exact h
  | waiting r =>
    obtain ⟨race, hrace, rfl⟩ := h
    exact hq r race hrace

section Knows

variable {c : Config} {q : Queue} (hq : q.Ok c)

theorem ranked_subset (q : Queue) (path : String) : ranked c q path ⊆ c.upstreams := by
  intro u hu
  exact (mem_filter.1 ((mem_insertionSort _).1 hu)).1

include hq in
theorem Queue.Ok.joinRace (hash : String) :
    (joinRace c q hash).1.Ok c ∧ q.Grows (joinRace c q hash).1 ∧
      (joinRace c q hash).2.Ok c (joinRace c q hash).1 hash := by
  unfold Http.joinRace
  split
  · next race hrace => exact ⟨hq, .of_races rfl, hq.named hrace⟩
  · have hlast : (q.races ++ [⟨hash, c.upstreams, none⟩])[q.races.length]? =
        some ⟨hash, c.upstreams, none⟩ := by simp
    have hgrows : ∀ {r : Nat} {race : Race}, q.races[r]? = some race →
        (q.races ++ [⟨hash, c.upstreams, none⟩])[r]? = some race := fun hrace => by
      rw [getElem?_append_left (List.getElem?_eq_some_iff.1 hrace).1, hrace]
    refine ⟨⟨hq.learned, ?_, ?_, ?_⟩, fun _ _ hrace => ⟨_, hgrows hrace, rfl⟩, _, hlast, rfl⟩
    · intro race hrace found hfound
      rcases mem_append.1 hrace with hrace | hrace
      · exact hq.winners race hrace found hfound
      · rw [mem_singleton.1 hrace] at hfound
        cases hfound
    · intro race hrace
      rcases mem_append.1 hrace with hrace | hrace
      · exact hq.pending race hrace
      · rw [mem_singleton.1 hrace]
        exact List.Subset.refl _
    · intro other r hr
      rw [Dict.get?_set] at hr
      split at hr
      · next heq =>
        cases hr
        exact ⟨_, hlast, heq⟩
      · obtain ⟨race, hrace, hhash⟩ := hq.named hr
        exact ⟨race, hgrows hrace, hhash⟩

include hq in
theorem Queue.Ok.askOrJoin (hash : String) {rest : List Upstream} (hrest : rest ⊆ c.upstreams) :
    (askOrJoin c q hash rest).1.Ok c ∧ q.Grows (askOrJoin c q hash rest).1 ∧
      (askOrJoin c q hash rest).2.Ok c (askOrJoin c q hash rest).1 hash := by
  cases rest with
  | nil => exact hq.joinRace hash
  | cons u rest => exact ⟨hq, .of_races rfl, hrest⟩

include hq in
theorem Queue.Ok.raceHttpNarinfo {hash : String} {q' : Queue} {r : Racing}
    (h : raceHttpNarinfo c q hash = some (q', r)) :
    q'.Ok c ∧ q.Grows q' ∧ r.Ok c q' hash := by
  unfold Http.raceHttpNarinfo at h
  split at h
  · cases h
  · split at h
    · have hjoin := hq.joinRace hash
      rwa [Option.some.inj h] at hjoin
    · next path _ =>
      have hask := hq.askOrJoin hash (ranked_subset q path)
      rwa [Option.some.inj h] at hask

include hq in
theorem Queue.Ok.of_same {q' : Queue} (hpaths : q'.hashPaths = q.hashPaths)
    (hraces : q'.races = q.races) (hnames : q'.httpRaces = q.httpRaces) : q'.Ok c where
  learned h := hq.learned (hpaths ▸ h)
  winners race hrace := hq.winners race (hraces ▸ hrace)
  pending race hrace := hq.pending race (hraces ▸ hrace)
  named h := hraces ▸ hq.named (hnames ▸ h)

include hq in
theorem Queue.Ok.next {hash : String} {r : Racing} (hr : r.Ok c q hash) {reply : Reply}
    {q' : Queue} {out : Option Found ⊕ Racing} (h : r.next c q hash reply = some (q', out)) :
    q'.Ok c ∧ q.Grows q' ∧
      (∀ found, out = .inl (some found) → FoundAt c hash found ∧ r.atHand? c q hash = some found) ∧
      ∀ r', out = .inr r' → r'.Ok c q' hash := by
  cases r with
  | asking rest =>
    cases rest with
    | nil => cases h
    | cons u rest =>
      simp only [Racing.next] at h
      split at h
      · next found hfetch =>
        obtain ⟨rfl, rfl⟩ := Prod.mk.inj (Option.some.inj h)
        refine ⟨hq, .of_races rfl, ?_, nofun⟩
        intro other hother
        cases hother
        refine ⟨⟨u, hr (by simp), hfetch⟩, ?_⟩
        rw [Racing.atHand?, hfetch]
        rfl
      · obtain ⟨rfl, rfl⟩ := Prod.mk.inj (Option.some.inj h)
        have hask := hq.askOrJoin hash (subset_of_cons_subset hr)
        refine ⟨hask.1, hask.2.1, nofun, ?_⟩
        rintro r' ⟨⟩
        exact hask.2.2
  | waiting r =>
    obtain ⟨race, hrace, rfl⟩ := hr
    have hpop : ∀ {hash other : String} {n : Nat},
        Dict.get? (Dict.pop q.httpRaces hash) other = some n →
          Dict.get? q.httpRaces other = some n := by
      intro hash other n hn
      rw [Dict.get?_pop] at hn
      split at hn
      · cases hn
      · exact hn
    simp only [Racing.next, hrace] at h
    split at h
    · split at h
      · next found hwinner =>
        obtain ⟨rfl, rfl⟩ := Prod.mk.inj (Option.some.inj h)
        refine ⟨⟨hq.learned, hq.winners, hq.pending, fun hn => hq.named (hpop hn)⟩,
          .of_races rfl, ?_, nofun⟩
        intro other hother
        cases hother
        refine ⟨hq.winners race (mem_of_getElem? hrace) _ hwinner, ?_⟩
        rw [Racing.atHand?, hrace, Option.bind_some, hwinner]
      · obtain ⟨rfl, rfl⟩ := Prod.mk.inj (Option.some.inj h)
        exact ⟨⟨hq.learned, hq.winners, hq.pending, fun hn => hq.named (hpop hn)⟩,
          .of_races rfl, nofun, nofun⟩
    · cases h

theorem Queue.Grows.set {q' : Queue} {r : Nat} {race race' : Race}
    (hrace : q.races[r]? = some race) (hset : q'.races = q.races.set r race')
    (hhash : race'.hash = race.hash) : q.Grows q' := by
  intro i other hother
  rw [hset]
  by_cases hi : r = i
  · subst hi
    have hlt := (List.getElem?_eq_some_iff.1 hrace).1
    rw [hrace] at hother
    cases hother
    exact ⟨race', by rw [getElem?_set_self hlt], hhash⟩
  · exact ⟨other, by rw [getElem?_set_ne hi, hother], rfl⟩

include hq in
theorem Queue.Ok.set {q' : Queue} {r : Nat} {race race' : Race} (hrace : q.races[r]? = some race)
    (hset : q'.races = q.races.set r race') (hhash : race'.hash = race.hash)
    (hnames : q'.httpRaces = q.httpRaces) (hpending : race'.pending ⊆ race.pending)
    (hlearned : ∀ {hash path}, Dict.get? q'.hashPaths hash = some path →
      ∃ found, FoundAt c hash found ∧ found.2.path = path)
    (hwinner : ∀ found, race'.winner = some found → FoundAt c race.hash found) : q'.Ok c where
  learned := hlearned
  winners other hother found hfound := by
    rw [hset] at hother
    rcases mem_or_eq_of_mem_set hother with hother | rfl
    · exact hq.winners other hother found hfound
    · exact hhash ▸ hwinner found hfound
  pending other hother := by
    rw [hset] at hother
    rcases mem_or_eq_of_mem_set hother with hother | rfl
    · exact hq.pending other hother
    · exact List.Subset.trans hpending (hq.pending race (mem_of_getElem? hrace))
  named h := by
    obtain ⟨other, hother, rfl⟩ := hq.named (hnames ▸ h)
    exact Queue.Grows.set hrace hset hhash _ other hother

include hq in
theorem Queue.Ok.probe {r : Nat} {race : Race} (hrace : q.races[r]? = some race) {u : Upstream}
    (hu : u ∈ race.pending) (reply : Reply) :
    (probe c q r race u reply).Ok c ∧ q.Grows (probe c q r race u reply) := by
  have hup : u ∈ c.upstreams := hq.pending race (mem_of_getElem? hrace) hu
  have hpending : race.pending.filter (·.storeId ≠ u.storeId) ⊆ race.pending :=
    filter_sublist.subset
  unfold Http.probe
  dsimp only
  split
  · next found hfetch =>
    have hfound : FoundAt c race.hash found := ⟨u, hup, hfetch⟩
    refine ⟨hq.set hrace rfl rfl rfl hpending ?_ ?_, .set hrace rfl rfl⟩
    · intro hash path hpath
      rw [Dict.get?_set] at hpath
      split at hpath
      · next heq =>
        cases hpath
        exact ⟨found, heq ▸ hfound, rfl⟩
      · exact hq.learned hpath
    · intro other hother
      rcases Option.or_eq_some_iff.1 hother with hwinner | ⟨-, hother⟩
      · exact hq.winners race (mem_of_getElem? hrace) other hwinner
      · cases hother
        exact hfound
  · exact ⟨hq.set hrace rfl rfl rfl hpending hq.learned
      (hq.winners race (mem_of_getElem? hrace)), .set hrace rfl rfl⟩

include hq in
theorem Queue.Ok.record (path : String) (u : Upstream) (reply : Reply) :
    (record c q path u reply).Ok c ∧ q.Grows (record c q path u reply) := by
  unfold Http.record
  split
  · exact ⟨hq.of_same rfl rfl rfl, .of_races rfl⟩
  · exact ⟨hq.of_same rfl rfl rfl, .of_races rfl⟩

include hq in
theorem Queue.Ok.expire (what : Expiry) : (q.expire what).Ok c ∧ q.Grows (q.expire what) := by
  cases what with
  | hashPath hash =>
    refine ⟨⟨fun h => ?_, hq.winners, hq.pending, hq.named⟩, .of_races rfl⟩
    rw [Queue.expire, Dict.get?_pop] at h
    split at h
    · cases h
    · exact hq.learned h
  | hashNegative hash => exact ⟨hq.of_same rfl rfl rfl, .of_races rfl⟩
  | positive path => exact ⟨hq.of_same rfl rfl rfl, .of_races rfl⟩
  | negative path => exact ⟨hq.of_same rfl rfl rfl, .of_races rfl⟩

end Knows

/-! ## The invariant -/

/-- A NAR request in flight: the narinfos that were served before it name whatever the upstreams
can answer it with, and the path that it falls back to is one that its URL may mean. -/
structure Flight (c : Config) (served : List (List String)) (filename : String)
    (prior : List (List String)) (held : Option PathInfo) : Prop where
  isServed : prior ⊆ served
  upstream : ∀ lines ∈ prior, Asks lines filename → ∀ file,
    Offers c (fileHashPart filename) file → Names lines file
  means : ∀ info, held = some info → Means (fileHashPart filename) info.path

/-- One of the upstreams names the path under the hash. -/
def Knows (c : Config) (hash path : String) : Prop :=
  ∃ found, FoundAt c hash found ∧ found.2.path = path

def Redirecting.Ok (c : Config) (q : Queue) (hash : String) : Redirecting → Prop
  | .racing r => r.Ok c q hash
  | .querying path _ => Knows c hash path
  | .asking path rest => Knows c hash path ∧ rest ⊆ c.upstreams

def Phase.Ok (c : Config) (q : Queue) (served : List (List String)) : Phase → Prop
  | .narinfo hash r => r.Ok c q hash
  | .nar filename prior held r =>
    r.Ok c q (fileHashPart filename) ∧ Flight c served filename prior held
  | .ended => True

structure Server.Inv (c : Config) (s : Server) : Prop where
  queue : s.queue.Ok c
  requests : ∀ phase ∈ s.requests, phase.Ok c s.queue s.served
  namesLocal : ∀ lines ∈ s.served, ∀ info ∈ s.paths, NamesLocal info lines
  namesUpstream : ∀ lines ∈ s.served, NamesUpstream c s.paths lines
  agrees : ∀ a ∈ s.answers, a.Agrees

theorem Phase.Ok.grows {c : Config} {q q' : Queue} {served served' : List (List String)}
    {phase : Phase} (h : phase.Ok c q served) (hq : q.Grows q') (hserved : served ⊆ served') :
    phase.Ok c q' served' := by
  cases phase with
  | ended => trivial
  | narinfo hash r => exact Racing.Ok.grows h hq
  | nar filename prior held r =>
    obtain ⟨hr, hprior, hupstream, hheld⟩ := h
    refine ⟨?_, List.Subset.trans hprior hserved, hupstream, hheld⟩
    cases r with
    | racing r => exact Racing.Ok.grows hr hq
    | querying path pending => exact hr
    | asking path rest => exact hr

namespace Server.Inv

variable {c : Config} {s : Server} (h : s.Inv c)

include h in
theorem withQueue {q : Queue} (hq : q.Ok c ∧ s.queue.Grows q) : { s with queue := q }.Inv c where
  queue := hq.1
  requests phase hphase := (h.requests phase hphase).grows hq.2 (List.Subset.refl _)
  namesLocal := h.namesLocal
  namesUpstream := h.namesUpstream
  agrees := h.agrees

include h in
theorem setRequest (i : Nat) {phase : Phase} (hphase : phase.Ok c s.queue s.served) :
    (s.setRequest i phase).Inv c where
  queue := h.queue
  requests other hother := by
    rcases mem_or_eq_of_mem_set hother with hother | rfl
    · exact h.requests other hother
    · exact hphase
  namesLocal := h.namesLocal
  namesUpstream := h.namesUpstream
  agrees := h.agrees

include h in
theorem ended (i : Nat) : (s.setRequest i .ended).Inv c := h.setRequest i trivial

include h in
theorem serve (i : Nat) {lines : List String} (hlocal : ∀ info ∈ s.paths, NamesLocal info lines)
    (hupstream : NamesUpstream c s.paths lines) : (s.serve i lines).Inv c where
  queue := h.queue
  requests phase hphase :=
    ((h.ended i).requests phase hphase).grows (.of_races rfl) (subset_append_left _ _)
  namesLocal other hother := by
    rcases mem_append.1 hother with hother | hother
    · exact h.namesLocal other hother
    · rw [mem_singleton.1 hother]
      exact hlocal
  namesUpstream other hother := by
    rcases mem_append.1 hother with hother | hother
    · exact h.namesUpstream other hother
    · rw [mem_singleton.1 hother]
      exact hupstream
  agrees := h.agrees

include h in
theorem answer (i : Nat) {filename : String} {prior : List (List String)} {file : File}
    (hfile : ∀ lines ∈ prior, Asks lines filename → Names lines file) :
    (s.answer i filename prior file).Inv c where
  queue := h.queue
  requests := (h.ended i).requests
  namesLocal := h.namesLocal
  namesUpstream := h.namesUpstream
  agrees a ha := by
    rcases mem_append.1 ha with ha | ha
    · exact h.agrees a ha
    · rw [mem_singleton.1 ha]
      exact hfile

include h in
theorem fallBack (i : Nat) {filename : String} {prior : List (List String)}
    {held : Option PathInfo} (hprior : prior ⊆ s.served)
    (hheld : ∀ info, held = some info → Means (fileHashPart filename) info.path) :
    (s.redirected c i filename prior held none).Inv c := by
  unfold Server.redirected
  dsimp only
  split
  · next now hnow =>
    obtain ⟨info, hinfo, hfind⟩ := Option.bind_eq_some_iff.1 hnow
    have hpath : now.path = info.path := by
      have hsame := find?_some hfind
      simp only [Bool.and_eq_true, decide_eq_true_eq] at hsame
      exact hsame.1
    refine h.answer i fun lines hlines hasks => ?_
    have hmeans := hheld info hinfo
    rw [← hpath] at hmeans
    exact h.namesLocal lines (hprior hlines) now (mem_of_find?_eq_some hfind)
      filename hasks hmeans
  · exact h.ended i

section Redirect

variable {filename : String} {prior : List (List String)} {held : Option PathInfo}
  (hflight : Flight c s.served filename prior held)

include h hflight

theorem redirected (i : Nat) {url : String}
    (hurl : Offers c (fileHashPart filename) (c.files url)) :
    (s.redirected c i filename prior held (some url)).Inv c :=
  h.answer i fun lines hlines hasks => hflight.upstream lines hlines hasks _ hurl

theorem rank (i : Nat) {path : String} (hpath : Knows c (fileHashPart filename) path) :
    (s.rank c i filename prior held path).Inv c := by
  unfold Server.rank
  split
  · exact h.fallBack i hflight.isServed hflight.means
  · exact h.setRequest i ⟨⟨hpath, ranked_subset s.queue path⟩, hflight⟩

theorem select (i : Nat) (healthy : List String) {path : String}
    (hpath : Knows c (fileHashPart filename) path) :
    (s.select c i filename prior held healthy path).Inv c := by
  unfold Server.select
  split
  · exact h.rank hflight i hpath
  · exact h.setRequest i ⟨hpath, hflight⟩

theorem redirect (i : Nat) (healthy : List String) :
    (s.redirect c i filename prior held healthy).Inv c := by
  unfold Server.redirect
  split
  · split
    · next path hpath => exact h.select hflight i healthy (h.queue.learned hpath)
    · split
      · exact h.fallBack i hflight.isServed hflight.means
      · next q r hrace =>
        obtain ⟨hq, hgrows, hr⟩ := h.queue.raceHttpNarinfo hrace
        exact (h.withQueue ⟨hq, hgrows⟩).setRequest i ⟨hr, hflight⟩
  · exact h.fallBack i hflight.isServed hflight.means

end Redirect

end Server.Inv

theorem means_of_resolvePath {c : Config} {paths : List PathInfo} {hash : String} {info : PathInfo}
    (h : resolvePath c paths hash = some info) : info ∈ paths ∧ Means hash info.path := by
  have hbyPart : paths.find? (fun info => hashPart info.path = hash) = some info →
      info ∈ paths ∧ Means hash info.path := by
    intro hfind
    have hpart := find?_some hfind
    exact ⟨mem_of_find?_eq_some hfind, .inl (of_decide_eq_true hpart).symm⟩
  unfold resolvePath at h
  split at h
  · next hlong =>
    simp only [Option.orElse_eq_orElse, Option.orElse_eq_or, Option.or_eq_some_iff] at h
    rcases h with hfind | ⟨-, h⟩
    · exact ⟨mem_of_find?_eq_some hfind, .inr hlong.2⟩
    · rcases h with hfind | ⟨-, hfind⟩
      · exact ⟨mem_of_find?_eq_some hfind, .inr hlong.2⟩
      · exact hbyPart hfind
  · exact hbyPart h

theorem resolvePath_eq_none_of_append {c : Config} {paths more : List PathInfo} {hash : String}
    (h : resolvePath c (paths ++ more) hash = none) : resolvePath c paths hash = none := by
  unfold resolvePath at h ⊢
  split
  · next hlong =>
    rw [if_pos hlong] at h
    simp only [Option.orElse_eq_orElse, Option.orElse_eq_or, Option.or_eq_none_iff,
      find?_append] at h ⊢
    exact ⟨h.1.1, h.2.1.1, h.2.2.1⟩
  · next hshort =>
    rw [if_neg hshort, find?_append, Option.or_eq_none_iff] at h
    exact h.1

namespace Server.Inv

variable {c : Config} {s : Server} (h : s.Inv c)

include h

theorem request : { s with requests := s.requests ++ [Phase.ended] }.Inv c where
  queue := h.queue
  requests phase hphase := by
    rcases mem_append.1 hphase with hphase | hphase
    · exact h.requests phase hphase
    · rw [mem_singleton.1 hphase]
      trivial
  namesLocal := h.namesLocal
  namesUpstream := h.namesUpstream
  agrees := h.agrees

theorem handleNarinfo {hash : String} (hsteady : Steady c s (.getNarinfo hash)) :
    (s.handleNarinfo c hash).Inv c := by
  unfold Server.handleNarinfo
  dsimp only
  split
  · next info hinfo =>
    exact h.request.serve _ (fun other _ _ _ _ => names_toNarinfo c.storeDir info other)
      (hsteady info hinfo)
  · split
    · split
      · exact h.request
      · next q r hrace =>
        obtain ⟨hq, hgrows, hr⟩ := h.queue.raceHttpNarinfo hrace
        exact (h.request.withQueue ⟨hq, hgrows⟩).setRequest _ hr
    · exact h.request

theorem flight {filename : String} {held : Option PathInfo} (hrace : c.upstreamRace = true)
    (hleft : c.preferLocalNar = false ∨ resolvePath c s.paths (fileHashPart filename) = none)
    (hmeans : ∀ info, held = some info → Means (fileHashPart filename) info.path) :
    Flight c s.served filename s.served held where
  isServed := List.Subset.refl _
  upstream lines hlines hasks := h.namesUpstream lines hlines filename hasks hrace hleft
  means := hmeans

theorem handleNar (filename : String) (healthy : List String) :
    (s.handleNar c filename healthy).Inv c := by
  have hredirect : ∀ (i : Nat) (held : Option PathInfo),
      (c.preferLocalNar = false ∨ resolvePath c s.paths (fileHashPart filename) = none) →
      (∀ info, held = some info → Means (fileHashPart filename) info.path) →
      ({ s with requests := s.requests ++ [Phase.ended] }.redirect c i filename s.served held
        healthy).Inv c := by
    intro i held hleft hmeans
    by_cases hrace : c.upstreamRace = true
    · exact h.request.redirect (h.flight hrace hleft hmeans) i healthy
    · -- without the race there is no redirect
      rw [Server.redirect, if_neg hrace]
      exact h.request.fallBack i (List.Subset.refl _) hmeans
  unfold Server.handleNar
  dsimp only
  split
  · split
    · next hnone => exact hredirect _ none (.inr hnone) nofun
    · next info hinfo =>
      obtain ⟨hmem, hmeans⟩ := means_of_resolvePath hinfo
      split
      · exact h.request.answer _ fun lines hlines hasks =>
          h.namesLocal lines hlines info hmem filename hasks hmeans
      · next hprefer =>
        refine hredirect _ (some info) (.inl (by simpa using hprefer)) ?_
        rintro other ⟨⟩
        exact hmeans
  · exact h.request

theorem goOn {i : Nat} {reply : Reply} {healthy : List String} {phase : Phase} {s' : Server}
    (hphase : s.requests[i]? = some phase) (hsteady : Steady c s (.goes i reply healthy))
    (hgo : s.goOn c i reply healthy phase = some s') : s'.Inv c := by
  have hok := h.requests phase (mem_of_getElem? hphase)
  cases phase with
  | ended => cases hgo
  | narinfo hash r =>
    rw [Server.goOn] at hgo
    split at hgo
    · cases hgo
    · next q found hnext =>
      obtain ⟨hq, hgrows, hfound, -⟩ := h.queue.next hok hnext
      cases hgo
      cases found with
      | none => exact (h.withQueue ⟨hq, hgrows⟩).ended i
      | some found =>
        have hhand : s.requests[i]?.bind (·.atHand? c s.queue) = some found := by
          rw [hphase]
          exact (hfound found rfl).2
        obtain ⟨hupstream, hlocal⟩ := hsteady found hhand
        exact (h.withQueue ⟨hq, hgrows⟩).serve i hlocal hupstream
    · next q r' hnext =>
      obtain ⟨hq, hgrows, -, hr⟩ := h.queue.next hok hnext
      cases hgo
      exact (h.withQueue ⟨hq, hgrows⟩).setRequest i (hr r' rfl)
  | nar filename prior held at' =>
    obtain ⟨hat, hflight⟩ := hok
    cases at' with
    | racing r =>
      rw [Server.goOn] at hgo
      split at hgo
      · cases hgo
      · next q hnext =>
        obtain ⟨hq, hgrows, -, -⟩ := h.queue.next hat hnext
        cases hgo
        exact (h.withQueue ⟨hq, hgrows⟩).fallBack i hflight.isServed hflight.means
      · next q found hnext =>
        obtain ⟨hq, hgrows, hfound, -⟩ := h.queue.next hat hnext
        cases hgo
        exact (h.withQueue ⟨hq, hgrows⟩).select hflight i healthy
          ⟨found, (hfound found rfl).1, rfl⟩
      · next q r' hnext =>
        obtain ⟨hq, hgrows, -, hr⟩ := h.queue.next hat hnext
        cases hgo
        exact (h.withQueue ⟨hq, hgrows⟩).setRequest i ⟨hr r' rfl, hflight⟩
    | querying path pending => cases hgo
    | asking path rest =>
      cases rest with
      | nil => cases hgo
      | cons u rest =>
        obtain ⟨⟨found, ⟨v, hv, hfetch⟩, rfl⟩, hrest⟩ := hat
        obtain ⟨hu, hrest⟩ := cons_subset.1 hrest
        unfold Server.goOn at hgo
        dsimp only at hgo
        split at hgo
        · next info hinfo =>
          cases hgo
          exact h.redirected hflight i
            ⟨v, hv, found, hfetch, u, hu, info, hinfo, rfl⟩
        · cases hgo
          exact h.ended i
        · cases hgo
          exact h.ended i
        · split at hgo
          · cases hgo
            exact h.fallBack i hflight.isServed hflight.means
          · cases hgo
            exact h.setRequest i ⟨⟨⟨found, ⟨v, hv, hfetch⟩, rfl⟩, hrest⟩, hflight⟩

theorem queriedBy {i : Nat} {storeId : String} {reply : Reply} {phase : Phase} {s' : Server}
    (hphase : s.requests[i]? = some phase)
    (hquery : s.queriedBy c i storeId reply phase = some s') : s'.Inv c := by
  have hok := h.requests phase (mem_of_getElem? hphase)
  unfold Server.queriedBy at hquery
  split at hquery
  · next filename prior held path pending =>
    obtain ⟨hpath, hflight⟩ := hok
    split at hquery
    · cases hquery
    · next u _ =>
      have hqueue := h.withQueue (h.queue.record path u reply)
      split at hquery
      · cases hquery
        exact hqueue.rank hflight i hpath
      · cases hquery
        exact hqueue.setRequest i ⟨hpath, hflight⟩
  · cases hquery

theorem imported {info : PathInfo} (hlocal : ∀ lines ∈ s.served, NamesLocal info lines) :
    { s with paths := s.paths ++ [info] }.Inv c where
  queue := h.queue
  requests := h.requests
  namesLocal lines hlines other hother := by
    rcases mem_append.1 hother with hother | hother
    · exact h.namesLocal lines hlines other hother
    · rw [mem_singleton.1 hother]
      exact hlocal lines hlines
  namesUpstream lines hlines filename hasks hrace hleft :=
    h.namesUpstream lines hlines filename hasks hrace
      (hleft.imp_right resolvePath_eq_none_of_append)
  agrees := h.agrees

theorem deleted {path : String}
    (hupstream : ∀ lines ∈ s.served, NamesUpstream c (s.paths.filter (·.path ≠ path)) lines) :
    { s with paths := s.paths.filter (·.path ≠ path) }.Inv c where
  queue := h.queue
  requests := h.requests
  namesLocal lines hlines info hinfo := h.namesLocal lines hlines info (mem_filter.1 hinfo).1
  namesUpstream := hupstream
  agrees := h.agrees

end Server.Inv

theorem inv_step {c : Config} (s : Server) (e : Event) (s' : Server) (h : s.Inv c)
    (hsteady : Steady c s e) (hstep : step c s e = some s') : s'.Inv c := by
  cases e with
  | getNarinfo hash =>
    cases hstep
    exact h.handleNarinfo hsteady
  | getNar filename healthy =>
    cases hstep
    exact h.handleNar filename healthy
  | goes i reply healthy =>
    obtain ⟨phase, hphase, hgo⟩ := Option.bind_eq_some_iff.1 hstep
    exact h.goOn hphase hsteady hgo
  | queried i storeId reply =>
    obtain ⟨phase, hphase, hquery⟩ := Option.bind_eq_some_iff.1 hstep
    exact h.queriedBy hphase hquery
  | probed r storeId reply =>
    obtain ⟨race, hrace, hprobe⟩ := Option.bind_eq_some_iff.1 hstep
    obtain ⟨u, hu, rfl⟩ := Option.map_eq_some_iff.1 hprobe
    exact h.withQueue (h.queue.probe hrace (mem_of_find?_eq_some hu) reply)
  | imported info =>
    cases hstep
    split
    · exact h
    · next hnew => exact h.imported (hsteady hnew)
  | deleted path =>
    cases hstep
    exact h.deleted hsteady
  | expired what =>
    cases hstep
    exact h.withQueue (h.queue.expire what)

theorem inv_start (c : Config) (paths : List PathInfo) : (start paths).Inv c where
  queue := ⟨nofun, nofun, nofun, nofun⟩
  requests := nofun
  namesLocal := nofun
  namesUpstream := nofun
  agrees := nofun

/-- **In every run of steady steps, the NAR that a URL leads to is the one that every narinfo
names which was served for the URL before.** -/
theorem agrees_of_steady (c : Config) (paths : List PathInfo) (es : List Event) (s : Server)
    (hsteady : Guarded (step c) (Steady c) (start paths) es)
    (hrun : run (step c) (start paths) es = some s) : ∀ a ∈ s.answers, a.Agrees := by
  have hinv : s.Inv c := inv_of_guarded inv_step (inv_start c paths) hsteady hrun
  exact hinv.agrees

/-! ### A cache in front of one substituter -/

/-- A narinfo of a NAR that is compressed, as substituters have them. -/
def xzNarinfo : List String :=
  ["StorePath: /nix/store/abc-hello", "URL: nar/def.nar.xz", "Compression: xz",
    "FileHash: sha256:def"]

def oneUpstream : Config where
  storeDir := "/nix/store"
  hasDb := true
  upstreams := [⟨"cache", "http://cache", 1, fun hash =>
    if hash = "abc" then some xzNarinfo else none⟩]
  upstreamRace := true
  preferLocalNar := true
  urljoin base url := base ++ "/" ++ url
  files _ := ⟨"xz", "sha256:def"⟩

def hello : PathInfo := ⟨"abc-hello", "sha256:raw", 120, [], none, [], ""⟩

/-- A client asks for the narinfo, and the substituter has it. -/
def fetched : List Event :=
  [.getNarinfo "abc", .probed 0 "cache" .answers, .goes 0 .answers []]

theorem namesUpstream_oneUpstream (paths : List PathInfo) :
    NamesUpstream oneUpstream paths (rewriteNarinfoUrl xzNarinfo "abc") := by
  rintro filename - - - file ⟨v, -, found, -, u, -, info, -, rfl⟩
  show Names (rewriteNarinfoUrl xzNarinfo "abc") ⟨"xz", "sha256:def"⟩
  decide +kernel

theorem agrees_fetched : ∃ s, run (step oneUpstream) (start [])
      (fetched ++ [.getNar "abc.nar" [], .goes 1 .answers []]) = some s ∧
    s.answers.map (·.file) = [⟨"xz", "sha256:def"⟩] ∧ ∀ a ∈ s.answers, a.Agrees := by
  obtain ⟨s, hrun, hs⟩ := Option.map_eq_some_iff.1
    (by decide +kernel : (run (step oneUpstream) (start [])
      (fetched ++ [.getNar "abc.nar" [], .goes 1 .answers []])).map
        (fun s => s.answers.map (·.file)) = some [⟨"xz", "sha256:def"⟩])
  refine ⟨s, hrun, hs, agrees_of_steady oneUpstream [] _ s ?_ hrun⟩
  refine ⟨?_, fun s₁ h₁ => ⟨trivial, fun s₂ h₂ => ⟨?_, fun s₃ h₃ => ⟨trivial, fun s₄ h₄ =>
    ⟨?_, fun _ _ => trivial⟩⟩⟩⟩⟩
  · -- the local store has nothing
    exact fun info hinfo => by cases hinfo
  · -- the narinfo of the substituter goes out
    have hrun₂ : run (step oneUpstream) (start []) (fetched.take 2) = some s₂ :=
      run_cons_eq_some.2 ⟨s₁, h₁, run_cons_eq_some.2 ⟨s₂, h₂, rfl⟩⟩
    have hhand : (run (step oneUpstream) (start []) (fetched.take 2)).map (fun s => (s.paths,
        s.requests[0]?.bind (·.atHand? oneUpstream s.queue))) =
          some ([], some (xzNarinfo, ⟨"abc-hello", "nar/def.nar.xz"⟩)) := by decide +kernel
    rw [hrun₂, Option.map_some, Option.some_inj, Prod.mk.injEq] at hhand
    intro found hfound
    rw [hhand.2, Option.some_inj] at hfound
    subst hfound
    rw [hhand.1]
    exact ⟨namesUpstream_oneUpstream [], nofun⟩
  · -- the second request is one for a NAR
    have hrun₄ : run (step oneUpstream) (start []) (fetched ++ [.getNar "abc.nar" []]) = some s₄ :=
      run_cons_eq_some.2 ⟨s₁, h₁, run_cons_eq_some.2 ⟨s₂, h₂, run_cons_eq_some.2 ⟨s₃, h₃,
        run_cons_eq_some.2 ⟨s₄, h₄, rfl⟩⟩⟩⟩
    have hhand : (run (step oneUpstream) (start []) (fetched ++ [.getNar "abc.nar" []])).map
        (fun s => s.requests[1]?.bind (·.atHand? oneUpstream s.queue)) = some none := by
      decide +kernel
    rw [hrun₄, Option.map_some, Option.some_inj] at hhand
    intro found hfound
    rw [hhand] at hfound
    cases hfound

/-- **The path is imported between the two requests.**  The narinfo that the client has is the
substituter's, and the NAR that it gets is the local one, which is not compressed. -/
theorem disagrees_imported : ∃ s, run (step oneUpstream) (start [])
      (fetched ++ [.imported hello, .getNar "abc.nar" []]) = some s ∧
    ∃ a ∈ s.answers, ¬ a.Agrees := by
  obtain ⟨s, hrun, hs⟩ := Option.map_eq_some_iff.1
    (by decide +kernel : (run (step oneUpstream) (start [])
      (fetched ++ [.imported hello, .getNar "abc.nar" []])).map
        (fun s => decide (∃ a ∈ s.answers, ¬ a.Agrees)) = some true)
  exact ⟨s, hrun, of_decide_eq_true hs⟩

end Pynixd.Http
