import Rdkafka.Lib.KeySorted
import Rdkafka.Lib.KeyMap
import Rdkafka.Lib.NatSize
import Rdkafka.Lib.ZigZag
import Rdkafka.Lib.ByteFields
import Rdkafka.Lib.CInt
import Rdkafka.Lib.Quota
import Rdkafka.Lib.ListModify
import Rdkafka.Lib.Simulation
import Rdkafka.Lib.XorLinear
import Rdkafka.Lib.Buckets
import Rdkafka.Msg.Queue
import Rdkafka.Msg.QueueInsert
import Rdkafka.Buf.Buf
import Rdkafka.Buf.Varint
import Rdkafka.Buf.Slice
import Rdkafka.Buf.BufSpec
import Rdkafka.Buf.BufOps
import Rdkafka.Buf.SliceSpec
import Rdkafka.Buf.BufRun
import Rdkafka.Buf.SliceVarint
import Rdkafka.Buf.KafkaBuf
import Rdkafka.Buf.Crc32c
import Rdkafka.Buf.Crc32cSw
import Rdkafka.Buf.Crc32cHw
import Rdkafka.Buf.ArrayCnt
import Rdkafka.Msg.Header
import Rdkafka.Msg.HeaderRoundTrip
import Rdkafka.Msg.MsgsetReader
import Rdkafka.Msg.MsgsetWriter
import Rdkafka.Msg.MsgsetFormat
import Rdkafka.Msg.MsgsetWriterSpec
import Rdkafka.Msg.MsgsetWriterVersion
import Rdkafka.Msg.MsgsetWriterLimits
import Rdkafka.Msg.MsgsetReaderSpec
import Rdkafka.Msg.MsgsetReaderProgress
import Rdkafka.Msg.MsgsetRoundTrip
import Rdkafka.Kafka.Err
import Rdkafka.Partition.TopicPartition
import Rdkafka.Cgrp.Assignment
import Rdkafka.Cgrp.AssignmentSpec
import Rdkafka.Cgrp.Assignor
import Rdkafka.Cgrp.RoundRobinAssignor
import Rdkafka.Cgrp.RangeAssignor
import Rdkafka.Cgrp.RangeAssignorStep
import Rdkafka.Cgrp.RangeAssignorRanges
import Rdkafka.Cgrp.RangeAssignorSpec
import Rdkafka.Cgrp.StickyAssignor
import Rdkafka.Metadata.Cache
import Rdkafka.Metadata.CacheSpec
import Rdkafka.Metadata.Evict
import Rdkafka.Partition.RetryMsgq
import Rdkafka.Kafka.IdempotentProduceError
import Rdkafka.Broker.MsgqScan
import Rdkafka.Avl.Tree
import Rdkafka.Avl.TreeSpec
import Rdkafka.Msg.AbortedTxns
import Rdkafka.Hdr.Histogram
import Rdkafka.Hdr.HistogramSpec
import Rdkafka.Timer.Timer
import Rdkafka.Timer.TimerSpec
import Rdkafka.Map.Map
import Rdkafka.Map.MapSpec
