import ZcMesh.Lib.Scan
import ZcMesh.Lib.Run
import ZcMesh.Lib.Blocks
import ZcMesh.Lib.Search
import ZcMesh.Lib.Walk
import ZcMesh.Lib.Carve
import ZcMesh.Lib.CText
import ZcMesh.Lib.TornLog
import ZcMesh.Lib.KeyValue
import ZcMesh.Lib.Buckets
import ZcMesh.Lib.Replica
import ZcMesh.Wire.Codec
import ZcMesh.Wire.Burst
import ZcMesh.Wire.Checksum
import ZcMesh.Stream.Capture
import ZcMesh.Stream.KeyOrder
import ZcMesh.Stream.Agreement
import ZcMesh.Ring.Interleaving
import ZcMesh.Ring.LongRing
import ZcMesh.Stats.Analyze
import ZcMesh.Stats.Agreement
import ZcMesh.Stats.Loss
import ZcMesh.Stats.Wrap
import ZcMesh.Stats.Repeats
import ZcMesh.Stats.Interleave
import ZcMesh.Stats.Partition
import ZcMesh.Stats.InterArrival
import ZcMesh.Stats.Scrape
import ZcMesh.Edge.Router
import ZcMesh.Edge.Main
import ZcMesh.Edge.Failover
import ZcMesh.Edge.TcpStream
import ZcMesh.Edge.Deliver
import ZcMesh.Edge.Accounting
import ZcMesh.Edge.ByteQueue
import ZcMesh.Edge.Gate
import ZcMesh.Edge.Probe
import ZcMesh.Edge.Report
import ZcMesh.Edge.Arena
import ZcMesh.Edge.ParseEndpoint
import ZcMesh.Edge.FileSource
import ZcMesh.Edge.ControlPlane
import ZcMesh.Edge.Masks
import ZcMesh.Edge.ControlCli
import ZcMesh.Mesh.Lossless
import ZcMesh.Mesh.LossReport
import ZcMesh.Mesh.LossRate
import ZcMesh.Mesh.FileSoak
import ZcMesh.Mesh.HopSoak
import ZcMesh.Zcm.Recording
import ZcMesh.Zcm.Mirror
import ZcMesh.Zcm.JavaRecording
import ZcMesh.Zcm.Expectations
import ZcMesh.Zcm.HopCheck
import ZcMesh.Zcm.HostileHeader
import ZcMesh.Zcm.FailedWrite
import ZcMesh.Zcm.Runtime
import ZcMesh.Ui.OperatorApp
import ZcMesh.Ring.LongThreads
