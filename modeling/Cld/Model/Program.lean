import Cld.Model.Redirect
import Cld.Model.Single

/-!
# The whole of `Cld`

From the first request to "Finished": the redirect loop, the opening of the output file, and one of
the two loops that download, each with the steps it has by itself.

Between the loops the system is asked for a file and an epoll descriptor, and by
`SingleConnectionDownload` for its worker.  That `mkstemp` fails is not noticed; the writes fail
then.
-/

namespace Cld

open Framework

/-- What the system answers between the two loops. -/
structure Opening where
  /-- The exception of `wrapper::Open`. -/
  refused : Option Exn := none
  /-- What `mkstemp` leaves in `filename`. -/
  temporary : Bytes
  /-- The exception of `wrapper::EpollCreate`. -/
  epoll : Option Exn := none
  /-- The connection of the only worker, or the exception of its constructor. -/
  connection : Except Exn Stream
  /-- Where the first node of the controller is allocated. -/
  node : NodePtr
  /-- The time at which the download begins. -/
  now : ℤ

inductive Event
  | contact (contact : Contact)
  | opening (o : Opening)
  | single (label : SingleLabel)
  | multi (label : Label)

/-- Where the function is; from the opening on, with the path of the output. -/
inductive Program
  | looking (s : Redirection)
  | single (output : Bytes) (loop : Single)
  | multi (output : Bytes) (cfg : Config) (loop : Download)
  | finished (output : Bytes) (file : File)
  | failed (fault : Fault)

namespace Program

def start (options : Options) (url : Url) : Program := .looking { options := options, url := url }

/-- `if (options.getOutputPath().empty())`, behind the redirect loop. -/
def openOutput (options : Options) (o : Opening) : Except Exn Options :=
  if options.outputPath = [] then options.setOutputPath o.temporary
  else
    match o.refused with
    | some e => .error e
    | none => .ok options

/-- The beginning of the download, up to its loop. -/
def enter (output : Bytes) (o : Opening) (selected : Selected) : Program :=
  match o.epoll with
  | some e => .failed (.thrown e)
  | none =>
    match selected with
    | .single request =>
      match o.connection with
      | .error e => .failed (.thrown e)
      | .ok stream => .single output (Single.init request stream o.now)
    | .multi cfg => .multi output cfg (Download.init cfg o.node o.now)

/-- From the last response to the loop of the download. -/
def begin (options : Options) (request : Request) (response : Response) (o : Opening) : Program :=
  match openOutput options o with
  | .error e => .failed (.thrown e)
  | .ok options => enter options.outputPath o (selectDownload options request response)

def ofRedirection (s : Redirection) : Program :=
  match s.phase with
  | .failed e => .failed (.thrown e)
  | _ => .looking s

def ofSingle (output : Bytes) (loop : Single) : Program :=
  match loop.pc with
  | .done => .finished output loop.file
  | .failed fault => .failed fault
  | _ => .single output loop

def ofMulti (output : Bytes) (cfg : Config) (loop : Download) : Program :=
  match loop.pc with
  | .done => .finished output loop.file
  | .failed fault => .failed fault
  | _ => .multi output cfg loop

/-- **One step of `Cld`.** -/
def step (s : Program) (event : Event) : Option Program :=
  match s, event with
  | .looking r, .contact contact => (r.step contact).map ofRedirection
  | .looking r, .opening o =>
    match r.phase with
    | .found request response => some (begin r.options request response o)
    | _ => none
  | .single output loop, .single label => (loop.step label).map (ofSingle output)
  | .multi output cfg loop, .multi label => (loop.step label).map (ofMulti output cfg)
  | _, _ => none

end Program

end Cld
