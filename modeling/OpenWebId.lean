import OpenWebId.RoundTrip
import OpenWebId.Creator
import OpenWebId.Signed
import OpenWebId.BufferWrite
import OpenWebId.Reader
import OpenWebId.Frames
import OpenWebId.KeyFaults
import OpenWebId.KeyUrl
import OpenWebId.Rotation
import OpenWebId.ServeTotal
import OpenWebId.Answered
import OpenWebId.Cancellation
import OpenWebId.CacheShape
import OpenWebId.Provenance
import OpenWebId.CacheStable
import OpenWebId.Recency
import OpenWebId.Progress
import OpenWebId.Economy
import OpenWebId.Budget
import OpenWebId.Recovery
import OpenWebId.Undated
import OpenWebId.Callers
import OpenWebId.Transport
import OpenWebId.EntryPoints
import OpenWebId.Sent
import OpenWebId.Publishing
import OpenWebId.ReaderTotal
