import Nodecast.Daemon
import Nodecast.Metrics.Point

/-!
# Reports

A report has a point for every collector and one for the hub.
-/

namespace Nodecast.Metrics

def collectorPoint (d : Daemon) (c : Collector) : Point :=
  let depth := ((d.router.queues.get? c.kind).map WorkQueue.size).getD 0
  let p : Point := { measurement := "metacollector_events" }
  (p.tag "kind" c.kind.name)
    |>.field "added" (.unsigned c.counts.added)
    |>.field "modified" (.unsigned c.counts.modified)
    |>.field "deleted" (.unsigned c.counts.deleted)
    |>.field "cache_entries" (.unsigned c.cache.size)
    |>.field "queue_depth" (.unsigned depth)

def hubPoint (s : Hub.Stats) : Point :=
  let p : Point := { measurement := "metacollector_subscribers" }
  (p.field "connected" (.unsigned s.subscribers))
    |>.field "joins" (.unsigned s.joins)
    |>.field "dropped_not_connected" (.unsigned s.droppedNotConnected)
    |>.field "dropped_queue_full" (.unsigned s.droppedQueueFull)

def report (d : Daemon) : List Point :=
  d.collectors.values.map (collectorPoint d) ++ [hubPoint d.hub.stats]

/-- Reports cannot follow each other without a wait between them. -/
def zeroInterval : String := "\x60period\x60 must be non-zero."

end Nodecast.Metrics
