import GoAmqp.BitmapSet
import GoAmqp.Conn.Authentication
import GoAmqp.Conn.Credentials
import GoAmqp.Conn.FrameHeaders
import GoAmqp.Conn.Limits
import GoAmqp.Conn.Pointers
import GoAmqp.Descriptors
import GoAmqp.Frames.Terminus
import GoAmqp.Link.Batching
import GoAmqp.Link.Credit
import GoAmqp.Link.Fragmentation
import GoAmqp.Link.MessageBuffer
import GoAmqp.Link.SenderLink
import GoAmqp.Link.Wakeup
import GoAmqp.Message.RoundTrip
import GoAmqp.Session.Done
import GoAmqp.Session.FlowControl
import GoAmqp.Session.Flows
import GoAmqp.Session.Forwarding
import GoAmqp.Session.LinkChannels
import GoAmqp.Termination
import GoAmqp.Times
import GoAmqp.Encoding.Widths
