/-! What can go wrong in a system call. -/

namespace EventHttp

inductive IoCause where
  | endOfStream
  | nothingWritten
  | wouldBlock
  | interrupted
  | connectionReset
  | connectionAborted
  | brokenPipe
  | badDescriptor
  | notFound
  | alreadyExists
  | accessDenied
  | tooManyFiles
  | tooManyFilesInSystem
  | addressInUse
  | addressNotAvailable
  | networkUnreachable
  | noSuchDevice
  | invalidArgument
  | unknownHost
  | nobodyToAsk
  | nulInName
  | other
  deriving DecidableEq, Repr

def IoCause.errno? : IoCause → Option Nat
  | .notFound => some 2
  | .interrupted => some 4
  | .badDescriptor => some 9
  | .wouldBlock => some 11
  | .accessDenied => some 13
  | .alreadyExists => some 17
  | .noSuchDevice => some 19
  | .invalidArgument => some 22
  | .tooManyFilesInSystem => some 23
  | .tooManyFiles => some 24
  | .brokenPipe => some 32
  | .addressInUse => some 98
  | .addressNotAvailable => some 99
  | .networkUnreachable => some 101
  | .connectionAborted => some 103
  | .connectionReset => some 104
  | .endOfStream | .nothingWritten | .unknownHost | .nobodyToAsk | .nulInName | .other => none

def IoCause.words : IoCause → String
  | .endOfStream => "unexpected end of file"
  | .nothingWritten => "write zero"
  | .wouldBlock => "Resource temporarily unavailable"
  | .interrupted => "Interrupted system call"
  | .connectionReset => "Connection reset by peer"
  | .connectionAborted => "Software caused connection abort"
  | .brokenPipe => "Broken pipe"
  | .badDescriptor => "Bad file descriptor"
  | .notFound => "No such file or directory"
  | .alreadyExists => "File exists"
  | .accessDenied => "Permission denied"
  | .tooManyFiles => "Too many open files"
  | .tooManyFilesInSystem => "Too many open files in system"
  | .addressInUse => "Address already in use"
  | .addressNotAvailable => "Cannot assign requested address"
  | .networkUnreachable => "Network is unreachable"
  | .noSuchDevice => "No such device"
  | .invalidArgument => "Invalid argument"
  | .unknownHost => "failed to lookup address information: Name or service not known"
  | .nobodyToAsk =>
    "failed to lookup address information: Temporary failure in name resolution"
  | .nulInName => "file name contained an unexpected NUL byte"
  | .other => "other error"

structure IoError where
  cause : IoCause
  wording : Option String
  deriving DecidableEq, Repr

namespace IoError

def ofCause (cause : IoCause) : IoError :=
  ⟨cause, none⟩

instance : Coe IoCause IoError := ⟨ofCause⟩

def errno? (e : IoError) : Option Nat :=
  match e.wording with
  | some _ => none
  | none => e.cause.errno?

def message (e : IoError) : String :=
  match e.wording with
  | some text => text
  | none =>
    match e.cause.errno? with
    | some n => e.cause.words ++ s!" (os error {n})"
    | none => e.cause.words

end IoError
end EventHttp
