import Wee.Base.BufferQueue
import Wee.Base.TableSlots
import Wee.Base.MqFifo
import Wee.Base.ChanRun
import Wee.Base.ViewStable
import Wee.Base.ThreadpoolRun
import Wee.Base.Cond
import Wee.Base.BufferAgree
import Wee.Base.BufferInts
import Wee.Base.BufferIndices
import Wee.Base.BufferCStr
import Wee.Dubbo.HessianInt
import Wee.Dubbo.HessianChunks
import Wee.Dubbo.CodecRequest
import Wee.Dubbo.CodecStream
import Wee.Dubbo.CodecStrings
import Wee.Dubbo.Utf8Copy
import Wee.Dubbo.ClientStats
import Wee.Dubbo.ClientSync
import Wee.Dubbo.AsciiText
import Wee.Nova.GenericFormat
import Wee.Net.SniffFrames
import Wee.Nova.Receive
import Wee.Nova.Flatten
import Wee.Dubbo.RebuildArgs
import Wee.Lib.Chain
import Wee.Lib.History
import Wee.Ae.EventLoop
import Wee.Ae.LoopSpec
import Wee.Ae.FileEvents
import Wee.Ae.TimeEvents
import Wee.Ae.LoopRefine
import Wee.Ae.TimerPass
import Wee.Ae.MainLoop
import Wee.Ae.Resize
import Wee.Ae.LoopTrace
import Wee.Ae.PassTrace
import Wee.Ae.FileTrace
